/-
# A download plan is that of the tree

What `buildRemoteDownloadPlan` of `src/app/remoteDownloadPlan.ts` returns, and that it returns
the same for every concurrency and every order in which the listings complete.

The scan is described by what its loops have come across, `found`, and by the directories it
has taken up, `visited` (`Inv`): the files are those found, the directories those visited and
pending, each once.  One addition keeps this (`Inv.add`), so the loops do.

* `buildRemoteDownloadPlan_exact` — every run of the planning ends, its plan is the plan of the
  tree (`PlanOf`), and another run ends the same way.
* `file_listed_twice` — a file that is selected beside its directory is in the plan twice.
-/

import HelmSsh.Pool
import HelmSsh.Frontend.DownloadPlan
import Mathlib.Data.List.Forall2
import Mathlib.Data.List.Perm.Subperm

namespace HelmSsh
namespace Frontend
namespace DownloadPlan

open RemotePath

/-! ### What a plan has to be -/

/-- The entries of a directory. -/
def RemoteTree.entriesOf (tree : RemoteTree) (path : List Char) : List RemoteFileEntry :=
  match tree.listDirectory path with
  | .ok entries => entries
  | .error _ => []

/-- The directories that are reached from the selections. -/
inductive Reaches (tree : RemoteTree) (selections : List RemoteDownloadSelection) :
    List Char → Prop
  | selected {selection : RemoteDownloadSelection} (hmem : selection ∈ selections)
      (hdir : selection.fileType = .directory) :
      Reaches tree selections (normalizePath selection.remotePath)
  | child {path : List Char} {entry : RemoteFileEntry} (h : Reaches tree selections path)
      (hmem : entry ∈ tree.entriesOf path) (hdir : entry.fileType = .directory) :
      Reaches tree selections (joinPath path entry.name)

/-- A file that is an entry of a reached directory. -/
def IsFileBelow (tree : RemoteTree) (selections : List RemoteDownloadSelection)
    (path : List Char) : Prop :=
  ∃ directory entry, Reaches tree selections directory ∧ entry ∈ tree.entriesOf directory ∧
    entry.fileType ≠ .directory ∧ path = joinPath directory entry.name

/-- How often a file is selected itself. -/
def timesSelected (selections : List RemoteDownloadSelection) (path : List Char) : ℕ :=
  ((selections.filter fun selection => selection.fileType ≠ .directory).map
    fun selection => normalizePath selection.remotePath).count path

/-- How often a file is in a plan. -/
def RemoteDownloadPlan.times (plan : RemoteDownloadPlan) (path : List Char) : ℕ :=
  (plan.files.map (·.remotePath)).count path

/-- The paths of a plan below the local directory. -/
def RemoteDownloadPlan.targets (plan : RemoteDownloadPlan) : List (List Char) :=
  plan.directories ++ plan.files.map (·.relativePath)

/-- Both separators of a local path are slashes to `joinLocalDownloadPath`. -/
def toSlash (c : Char) : Char :=
  if c = '\\' then '/' else c

/-- `joinLocalDownloadPath`: the base without the separators at its end, unless nothing is left
of it, and the relative path with slashes and without those at its front. -/
def joinLocalDownloadPath (baseDirectory relativePath : List Char) : List Char :=
  let normalizedBase := (baseDirectory.reverse.dropWhile fun c => toSlash c = '/').reverse
  let normalizedRelative := (relativePath.map toSlash).dropWhile (· = '/')
  (if normalizedBase ≠ [] then normalizedBase else baseDirectory) ++ '/' :: normalizedRelative

/-- The parts of a local path, with `.` and `..` resolved. -/
def localParts (path : List Char) : List (List Char) :=
  partsOf (path.map toSlash)

/-- Every path comes after the one it is below. -/
def ParentsFirst (paths : List (List Char)) : Prop :=
  ∀ before path after, paths = before ++ path :: after →
    ∀ parent name, path = parent ++ '/' :: name → '/' ∉ name → parent ∈ before

/-- What a plan of a tree is. -/
structure PlanOf (u : Unicode) (tree : RemoteTree) (selections : List RemoteDownloadSelection)
    (plan : RemoteDownloadPlan) : Prop where
  /-- Every file is there once for each time it is selected itself, and once more when it is
  below a directory that is reached. -/
  below : ∀ path, IsFileBelow tree selections path →
    plan.times path = timesSelected selections path + 1
  others : ∀ path, ¬ IsFileBelow tree selections path →
    plan.times path = timesSelected selections path
  /-- The targets are distinct ignoring case. -/
  distinct : (plan.targets.map u.localTargetKey).Nodup
  /-- They are made of safe names. -/
  safe : ∀ target ∈ plan.targets, ∀ segment ∈ target.splitOn '/', SafeName u segment
  /-- So they are in the chosen directory. -/
  inside : ∀ base, ∀ target ∈ plan.targets,
    localParts (joinLocalDownloadPath base target) = localParts base ++ target.splitOn '/'
  /-- A directory is there before the directories it holds, and for every file it holds. -/
  parents : ParentsFirst plan.directories
  holders : ∀ file ∈ plan.files, ∀ parent name, file.relativePath = parent ++ '/' :: name →
    '/' ∉ name → parent ∈ plan.directories

/-! ### Targets stay in their directory -/

variable {u : Unicode} {tree : RemoteTree} {selections : List RemoteDownloadSelection}

theorem localParts_trim (base : List Char) :
    localParts (base.reverse.dropWhile fun c => toSlash c = '/').reverse = localParts base := by
  rw [← List.reverse_reverse base, List.reverse_reverse base.reverse]
  induction base.reverse with
  | nil => rfl
  | cons c rev ih =>
    rw [List.dropWhile_cons]
    split_ifs with hc
    · rw [decide_eq_true_iff] at hc
      rw [ih, localParts, localParts, List.reverse_cons, List.map_append, List.map_singleton, hc,
        partsOf_append_slash]
      rfl
    · rfl

theorem map_toSlash_of_safe {target : List Char}
    (hsafe : ∀ segment ∈ target.splitOn '/', SafeName u segment) :
    target.map toSlash = target := by
  have hback : ∀ c ∈ target, toSlash c = c := by
    intro c hc
    by_cases hslash : c = '/'
    · rw [hslash]
      rfl
    · obtain ⟨segment, hsegment, hin⟩ := exists_part_of_mem hc hslash
      refine if_neg fun heq => ?_
      exact (hsafe segment hsegment).chars.2.1 (heq ▸ hin)
  rw [List.map_congr_left hback]
  exact List.map_id'' (fun _ => rfl) target

/-- A target made of safe names does not start with a slash. -/
theorem dropWhile_slash_of_safe : ∀ {target : List Char},
    (∀ segment ∈ target.splitOn '/', SafeName u segment) →
      target.dropWhile (· = '/') = target
  | [], _ => rfl
  | c :: rest, hsafe => by
    rw [List.dropWhile_cons, if_neg]
    intro hslash
    obtain rfl : c = '/' := of_decide_eq_true hslash
    have hfirst : ([] : List Char) ∈ ('/' :: rest).splitOn '/' := by
      rw [List.splitOn_cons_eq_if_modifyHead, if_pos (beq_self_eq_true _)]
      exact List.mem_cons_self ..
    exact (hsafe _ hfirst).chars.1.ne_nil rfl

/-- **A target made of safe names lies below the base**, whatever the base. -/
theorem localParts_joinLocalDownloadPath {target : List Char}
    (hsafe : ∀ segment ∈ target.splitOn '/', SafeName u segment) (base : List Char) :
    localParts (joinLocalDownloadPath base target) = localParts base ++ target.splitOn '/' := by
  have hbelow : ∀ base, localParts (base ++ '/' :: target)
      = localParts base ++ target.splitOn '/' := by
    intro base
    rw [localParts, List.map_append, List.map_cons, map_toSlash_of_safe hsafe]
    refine (partsOf_append_slash ..).trans ?_
    exact normalizeParts_proper fun segment hsegment => (hsafe segment hsegment).chars.1
  unfold joinLocalDownloadPath
  dsimp only
  rw [map_toSlash_of_safe hsafe, dropWhile_slash_of_safe hsafe]
  split_ifs
  · rw [hbelow, localParts_trim]
  · exact hbelow base

/-! ### What the loops have come across -/

/-- What was found before is sound: its remote path is normalized, its relative path is made of
safe names and lies in a visited directory, and a directory is one that is reached. -/
structure Sound (u : Unicode) (tree : RemoteTree) (selections : List RemoteDownloadSelection)
    (visited : List PendingDirectory) (f : Found) : Prop where
  normal : normalizePath f.remotePath = f.remotePath
  safe : ∀ segment ∈ f.relativePath.splitOn '/', SafeName u segment
  parent : ∀ parent name, f.relativePath = parent ++ '/' :: name → '/' ∉ name →
    parent ∈ visited.map (·.relativePath)
  reached : f.directory = true → Reaches tree selections f.remotePath

/-- The scan holds what was found, with the visited directories taken off the queue. -/
structure Inv (u : Unicode) (tree : RemoteTree) (selections : List RemoteDownloadSelection)
    (found : List Found) (visited : List PendingDirectory) (s : Scan) : Prop where
  sound : ∀ f ∈ found, Sound u tree selections visited f
  files : s.files = (found.filter fun f => !f.directory).map fun f =>
    ⟨f.remotePath, f.relativePath⟩
  directories : s.directories = (visited ++ s.pendingDirectories).map (·.relativePath)
  seen : s.seenRemoteDirectories = (visited ++ s.pendingDirectories).map (·.remotePath)
  nodup : s.seenRemoteDirectories.Nodup
  origin : ∀ d ∈ visited ++ s.pendingDirectories, ⟨d.remotePath, d.relativePath, true⟩ ∈ found
  complete : ∀ f ∈ found, f.directory = true → f.remotePath ∈ s.seenRemoteDirectories
  targets : s.seenLocalTargets.Perm
    ((s.directories ++ s.files.map (·.relativePath)).map u.localTargetKey)
  distinct : s.seenLocalTargets.Nodup
  parents : ParentsFirst s.directories

variable {found : List Found} {visited : List PendingDirectory} {s s' : Scan} {f : Found}

theorem inv_empty : Inv u tree selections [] [] .empty where
  sound _ h := absurd h List.not_mem_nil
  files := rfl
  directories := rfl
  seen := rfl
  nodup := List.nodup_nil
  origin _ h := absurd h List.not_mem_nil
  complete _ h := absurd h List.not_mem_nil
  targets := List.Perm.refl _
  distinct := List.nodup_nil
  parents _ _ _ h := absurd h.symm (by simp [Scan.empty])

theorem map_queue {β : Type*} (g : PendingDirectory → β) (q : List PendingDirectory)
    (d : PendingDirectory) :
    (visited ++ (q ++ [d])).map g = (visited ++ q).map g ++ [g d] := by
  rw [← List.append_assoc, List.map_append, List.map_singleton]

/-- A path may follow when the one it is below is there. -/
theorem ParentsFirst.concat {paths : List (List Char)} {last : List Char} (h : ParentsFirst paths)
    (hlast : ∀ parent name, last = parent ++ '/' :: name → '/' ∉ name → parent ∈ paths) :
    ParentsFirst (paths ++ [last]) := by
  intro before path after heq parent name hpath hname
  rcases List.eq_nil_or_concat after with rfl | ⟨after, x, rfl⟩
  · obtain ⟨rfl, hsingle⟩ := List.append_inj' heq rfl
    exact hlast parent name ((List.singleton_inj.mp hsingle).trans hpath) hname
  · rw [List.concat_eq_append, ← List.cons_append, ← List.append_assoc] at heq
    obtain ⟨heq, -⟩ := List.append_inj' heq rfl
    exact h before path after heq parent name hpath hname

/-- **What an addition does to the scan.** -/
theorem Inv.add (h : Inv u tree selections found visited s)
    (hf : Sound u tree selections visited f) (hadd : s.add u f = .ok s') :
    Inv u tree selections (found ++ [f]) visited s' := by
  have hsound : ∀ g ∈ found ++ [f], Sound u tree selections visited g := by
    intro g hg
    rcases List.mem_append.mp hg with hg | hg
    · exact h.sound g hg
    · exact List.mem_singleton.mp hg ▸ hf
  rcases Scan.add_eq_ok hf.normal hadd with ⟨hdir, hseen, rfl⟩ |
    ⟨hkey, ⟨hdir, hseen, rfl⟩ | ⟨hdir, rfl⟩⟩
  · exact {
      h with
      sound := hsound
      files := by rw [h.files, List.filter_append]; simp [hdir]
      origin := fun d hd => List.mem_append_left _ (h.origin d hd)
      complete := by
        intro g hg hgdir
        rcases List.mem_append.mp hg with hg | hg
        · exact h.complete g hg hgdir
        · exact List.mem_singleton.mp hg ▸ hseen }
  · refine ⟨hsound, ?_, ?_, ?_, ?_, ?_, ?_, ?_, ?_, ?_⟩
    · rw [h.files, List.filter_append]
      simp [hdir]
    · dsimp only
      rw [map_queue, h.directories]
    · dsimp only
      rw [map_queue, h.seen]
    · exact h.nodup.append (List.nodup_singleton _) (List.disjoint_singleton.mpr hseen)
    · intro d hd
      rw [← List.append_assoc] at hd
      rcases List.mem_append.mp hd with hd | hd
      · exact List.mem_append_left _ (h.origin d hd)
      · obtain rfl := List.mem_singleton.mp hd
        exact List.mem_append_right _ (List.mem_singleton.mpr (hdir ▸ rfl))
    · intro g hg hgdir
      rcases List.mem_append.mp hg with hg | hg
      · exact List.mem_append_left _ (h.complete g hg hgdir)
      · exact List.mem_append_right _ (List.mem_singleton.mp hg ▸ List.mem_singleton_self _)
    · refine (h.targets.append_right _).trans ?_
      rw [List.map_append, List.map_append, List.map_append, List.append_assoc,
        List.append_assoc]
      exact List.Perm.append_left _ List.perm_append_comm
    · exact h.distinct.append (List.nodup_singleton _) (List.disjoint_singleton.mpr hkey)
    · refine h.parents.concat fun parent name hrel hname => ?_
      rw [h.directories, List.map_append]
      exact List.mem_append_left _ (hf.parent parent name hrel hname)
  · refine { h with sound := hsound, files := ?_, origin := ?_, complete := ?_, targets := ?_
                    distinct := ?_ }
    · rw [h.files, List.filter_append, List.map_append]
      simp [hdir]
    · exact fun d hd => List.mem_append_left _ (h.origin d hd)
    · intro g hg hgdir
      rcases List.mem_append.mp hg with hg | hg
      · exact h.complete g hg hgdir
      · rw [List.mem_singleton.mp hg, hdir] at hgdir
        cases hgdir
    · refine (h.targets.append_right _).trans ?_
      rw [List.map_append, List.map_append, List.map_append, List.append_assoc, List.map_append]
      rfl
    · exact h.distinct.append (List.nodup_singleton _) (List.disjoint_singleton.mpr hkey)

theorem sound_ofSelection {selection : RemoteDownloadSelection} (hmem : selection ∈ selections)
    (hname : SafeName u selection.fileName) :
    Sound u tree selections visited (.ofSelection selection) where
  normal := normalizePath_idem _
  safe segment hsegment := by
    rw [Found.ofSelection, List.splitOn_eq_singleton hname.chars.1.no_slash] at hsegment
    exact List.mem_singleton.mp hsegment ▸ hname
  parent parent name heq _ := by
    have hslash : '/' ∈ selection.fileName := by
      rw [show selection.fileName = parent ++ '/' :: name from heq]
      exact List.mem_append_right _ (List.mem_cons_self ..)
    exact absurd hslash hname.chars.1.no_slash
  reached hdir := .selected hmem (of_decide_eq_true hdir)

variable {d : PendingDirectory}

/-- An entry with a safe name of a visited directory is sound. -/
theorem Inv.sound_ofEntry (h : Inv u tree selections found visited s)
    {entry : RemoteFileEntry} (hd : d ∈ visited) (hmem : entry ∈ tree.entriesOf d.remotePath)
    (hname : SafeName u entry.name) :
    Sound u tree selections visited (.ofEntry d entry) where
  normal := normalizePath_joinPath ..
  safe segment hsegment := by
    rw [Found.ofEntry, List.splitOn_append_cons_self,
      List.splitOn_eq_singleton hname.chars.1.no_slash] at hsegment
    rcases List.mem_append.mp hsegment with hsegment | hsegment
    · exact (h.sound _ (h.origin d (List.mem_append_left _ hd))).safe segment hsegment
    · exact List.mem_singleton.mp hsegment ▸ hname
  parent parent name heq hslash := by
    obtain ⟨rfl, -⟩ := append_slash_inj hname.chars.1.no_slash hslash heq
    exact List.mem_map_of_mem hd
  reached hdir := by
    have hreached := (h.sound _ (h.origin d (List.mem_append_left _ hd))).reached rfl
    exact hreached.child hmem (of_decide_eq_true hdir)

theorem Sound.mono (h : Sound u tree selections visited f) (more : List PendingDirectory) :
    Sound u tree selections (visited ++ more) f where
  normal := h.normal
  safe := h.safe
  parent parent name heq hslash := by
    rw [List.map_append]
    exact List.mem_append_left _ (h.parent parent name heq hslash)
  reached := h.reached

theorem Inv.take (h : Inv u tree selections found visited s) {batch q : List PendingDirectory}
    (hq : s.pendingDirectories = batch ++ q) :
    Inv u tree selections found (visited ++ batch) { s with pendingDirectories := q } where
  sound f hf := (h.sound f hf).mono batch
  files := h.files
  directories := by rw [h.directories, hq, List.append_assoc]
  seen := by rw [h.seen, hq, List.append_assoc]
  nodup := h.nodup
  origin d hd := h.origin d (by rw [hq, ← List.append_assoc]; exact hd)
  complete := h.complete
  targets := h.targets
  distinct := h.distinct
  parents := h.parents

/-! ### The loops -/

/-- What the loops have come across when the entries of some directories are read. -/
def foundOf (tree : RemoteTree) (selections : List RemoteDownloadSelection)
    (visited : List PendingDirectory) : List Found :=
  selections.map .ofSelection
    ++ visited.flatMap fun d => (tree.entriesOf d.remotePath).map (.ofEntry d)

theorem foundOf_concat (visited : List PendingDirectory) (d : PendingDirectory) :
    foundOf tree selections (visited ++ [d])
      = foundOf tree selections visited ++ (tree.entriesOf d.remotePath).map (.ofEntry d) := by
  rw [foundOf, foundOf, List.flatMap_append, ← List.append_assoc, List.flatMap_singleton]

/-- The scan after the entries of some directories are read, when the `rest` of their batch is
still to be read. -/
structure Explored (u : Unicode) (tree : RemoteTree) (selections : List RemoteDownloadSelection)
    (visited rest : List PendingDirectory) (s : Scan) : Prop where
  inv : Inv u tree selections (foundOf tree selections visited) (visited ++ rest) s
  listed : ∀ d ∈ visited, ∃ entries, tree.listDirectory d.remotePath = .ok entries
  names : ∀ d ∈ visited, ∀ entry ∈ tree.entriesOf d.remotePath, SafeName u entry.name

theorem Inv.addSelections {l : List RemoteDownloadSelection}
    (h : Inv u tree selections found visited s) (hl : ∀ selection ∈ l, selection ∈ selections)
    (hadd : s.addSelections u l = .ok s') :
    Inv u tree selections (found ++ l.map .ofSelection) visited s' := by
  induction l generalizing found s with
  | nil =>
    obtain rfl := Except.ok.inj hadd
    rwa [List.map_nil, List.append_nil]
  | cons selection l ih =>
    rw [Scan.addSelections, List.foldlM_cons] at hadd
    cases hfirst : s.addSelection u selection with
    | error message =>
      rw [hfirst] at hadd
      cases hadd
    | ok s₁ =>
      rw [hfirst] at hadd
      obtain ⟨hname, hs₁⟩ := Scan.addSelection_eq_ok hfirst
      have hone := h.add (sound_ofSelection (hl _ (List.mem_cons_self ..)) hname) hs₁
      have hall := ih hone (fun selection hmem => hl selection (List.mem_cons_of_mem _ hmem)) hadd
      rwa [List.append_assoc] at hall

theorem Inv.addListing {l : List RemoteFileEntry}
    (h : Inv u tree selections found visited s) (hd : d ∈ visited)
    (hl : ∀ entry ∈ l, entry ∈ tree.entriesOf d.remotePath) (hadd : s.addListing u d l = .ok s') :
    Inv u tree selections (found ++ l.map (.ofEntry d)) visited s' ∧
      ∀ entry ∈ l, SafeName u entry.name := by
  induction l generalizing found s with
  | nil =>
    obtain rfl := Except.ok.inj hadd
    rw [List.map_nil, List.append_nil]
    exact ⟨h, fun _ hmem => absurd hmem List.not_mem_nil⟩
  | cons entry l ih =>
    rw [Scan.addListing, List.foldlM_cons] at hadd
    cases hfirst : s.addEntry u d entry with
    | error message =>
      rw [hfirst] at hadd
      cases hadd
    | ok s₁ =>
      rw [hfirst] at hadd
      obtain ⟨hname, hs₁⟩ := Scan.addEntry_eq_ok hfirst
      have hone := h.add (h.sound_ofEntry hd (hl _ (List.mem_cons_self ..)) hname) hs₁
      obtain ⟨hall, hnames⟩ := ih hone (fun e hmem => hl e (List.mem_cons_of_mem _ hmem)) hadd
      rw [List.append_assoc] at hall
      refine ⟨hall, fun e hmem => ?_⟩
      rcases List.mem_cons.mp hmem with rfl | hmem
      · exact hname
      · exact hnames e hmem

/-- The listings of a batch, as the tree gives them. -/
def Listings (tree : RemoteTree) (batch : List PendingDirectory)
    (listings : List (List RemoteFileEntry)) : Prop :=
  List.Forall₂ (fun d entries => tree.listDirectory d.remotePath = .ok entries) batch listings

/-- **The loop over a batch reads its directories.** -/
theorem Explored.addBatch {batch : List PendingDirectory}
    {listings : List (List RemoteFileEntry)}
    (h : Explored u tree selections visited batch s) (hlist : Listings tree batch listings)
    (hadd : s.addBatch u (batch.zip listings) = .ok s') :
    Explored u tree selections (visited ++ batch) [] s' := by
  induction hlist generalizing visited s with
  | nil =>
    obtain rfl := Except.ok.inj hadd
    rwa [List.append_nil]
  | @cons d entries batch listings hd _ ih =>
    rw [List.zip_cons_cons, Scan.addBatch] at hadd
    have hentries : tree.entriesOf d.remotePath = entries := by
      rw [RemoteTree.entriesOf, hd]
    cases hfirst : s.addListing u d entries with
    | error message =>
      rw [hfirst] at hadd
      cases hadd
    | ok s₁ =>
      rw [hfirst] at hadd
      obtain ⟨hinv, hnames⟩ := h.inv.addListing
        (List.mem_append_right _ (List.mem_cons_self ..)) (fun e he => hentries ▸ he) hfirst
      have hone : Explored u tree selections (visited ++ [d]) batch s₁ := by
        refine ⟨?_, fun d' hd' => ?_, fun d' hd' => ?_⟩
        · rw [foundOf_concat, hentries, List.append_assoc]
          exact hinv
        · rcases List.mem_append.mp hd' with hd' | hd'
          · exact h.listed d' hd'
          · exact List.mem_singleton.mp hd' ▸ ⟨entries, hd⟩
        · rcases List.mem_append.mp hd' with hd' | hd'
          · exact h.names d' hd'
          · rw [List.mem_singleton.mp hd', hentries]
            exact hnames
      have hall := ih hone hadd
      rwa [List.append_assoc] at hall

/-! ### The plan of an explored tree -/

theorem ofSelection_mem_foundOf {selection : RemoteDownloadSelection}
    (hmem : selection ∈ selections) :
    .ofSelection selection ∈ foundOf tree selections visited :=
  List.mem_append_left _ (List.mem_map_of_mem hmem)

theorem ofEntry_mem_foundOf {entry : RemoteFileEntry} (hd : d ∈ visited)
    (hmem : entry ∈ tree.entriesOf d.remotePath) :
    .ofEntry d entry ∈ foundOf tree selections visited :=
  List.mem_append_right _ (List.mem_flatMap.mpr ⟨d, hd, List.mem_map_of_mem hmem⟩)

theorem Explored.seen (h : Explored u tree selections visited [] s)
    (hdone : s.pendingDirectories = []) :
    s.seenRemoteDirectories = visited.map (·.remotePath) := by
  rw [h.inv.seen, hdone, List.append_nil, List.append_nil]

/-- A visited directory has a normalized path, and is reached. -/
theorem Explored.of_visited (h : Explored u tree selections visited [] s) (hd : d ∈ visited) :
    normalizePath d.remotePath = d.remotePath ∧ Reaches tree selections d.remotePath := by
  have hmem : d ∈ visited ++ [] ++ s.pendingDirectories := by
    rw [List.append_nil]
    exact List.mem_append_left _ hd
  have hsound := h.inv.sound _ (h.inv.origin d hmem)
  exact ⟨hsound.normal, hsound.reached rfl⟩

/-- **The directories visited are those that are reached.** -/
theorem Explored.reaches_iff (h : Explored u tree selections visited [] s)
    (hdone : s.pendingDirectories = []) {path : List Char} :
    Reaches tree selections path ↔ path ∈ visited.map (·.remotePath) := by
  have hcomplete : ∀ f ∈ foundOf tree selections visited, f.directory = true →
      f.remotePath ∈ visited.map (·.remotePath) :=
    fun f hf hdir => h.seen hdone ▸ h.inv.complete f hf hdir
  constructor
  · intro hreach
    induction hreach with
    | selected hmem hdir =>
      exact hcomplete _ (ofSelection_mem_foundOf hmem) (decide_eq_true hdir)
    | child _ hmem hdir ih =>
      obtain ⟨d, hd, rfl⟩ := List.mem_map.mp ih
      exact hcomplete _ (ofEntry_mem_foundOf hd hmem) (decide_eq_true hdir)
  · intro hmem
    obtain ⟨d, hd, rfl⟩ := List.mem_map.mp hmem
    exact (h.of_visited hd).2

/-- The files that are found in the visited directories. -/
def filesBelow (tree : RemoteTree) (visited : List PendingDirectory) : List Found :=
  (visited.flatMap fun d => (tree.entriesOf d.remotePath).map (.ofEntry d)).filter
    fun f => !f.directory

theorem mem_filesBelow : f ∈ filesBelow tree visited ↔ ∃ d ∈ visited,
    ∃ entry ∈ tree.entriesOf d.remotePath, entry.fileType ≠ .directory ∧ f = .ofEntry d entry := by
  rw [filesBelow, List.mem_filter, List.mem_flatMap]
  constructor
  · rintro ⟨⟨d, hd, hf⟩, hdir⟩
    obtain ⟨entry, hentry, rfl⟩ := List.mem_map.mp hf
    refine ⟨d, hd, entry, hentry, fun heq => ?_, rfl⟩
    simp [Found.ofEntry, heq] at hdir
  · rintro ⟨d, hd, entry, hentry, hdir, rfl⟩
    refine ⟨⟨d, hd, List.mem_map_of_mem hentry⟩, ?_⟩
    simp [Found.ofEntry, hdir]

theorem Explored.files_eq (h : Explored u tree selections visited [] s) :
    s.files.map (·.remotePath)
      = ((selections.filter fun selection => selection.fileType ≠ .directory).map
          fun selection => normalizePath selection.remotePath)
        ++ (filesBelow tree visited).map (·.remotePath) := by
  rw [h.inv.files, List.map_map, foundOf, List.filter_append, List.map_append, filesBelow]
  congr 1
  rw [List.filter_map, List.map_map]
  simp only [Found.ofSelection, Function.comp_def, decide_not]

theorem Explored.nodup_relative (h : Explored u tree selections visited [] s) :
    ((filesBelow tree visited).map (·.relativePath)).Nodup := by
  have htargets := (h.inv.targets.nodup_iff.mp h.inv.distinct).of_map
  have hfiles := (List.nodup_append.mp htargets).2.1
  rw [h.inv.files, List.map_map, foundOf, List.filter_append, List.map_append] at hfiles
  exact (List.nodup_append.mp hfiles).2.1

/-- **The files below are distinct.** -/
theorem Explored.nodup_remote (h : Explored u tree selections visited [] s)
    (hdone : s.pendingDirectories = []) :
    ((filesBelow tree visited).map (·.remotePath)).Nodup := by
  have hvisited : (visited.map (·.remotePath)).Nodup := h.seen hdone ▸ h.inv.nodup
  refine List.pairwise_map.mpr ((List.pairwise_map.mp h.nodup_relative).imp_of_mem ?_)
  intro f g hf hg hne heq
  obtain ⟨d, hd, entry, hentry, -, rfl⟩ := mem_filesBelow.mp hf
  obtain ⟨d', hd', entry', hentry', -, rfl⟩ := mem_filesBelow.mp hg
  obtain ⟨hpath, hname⟩ := joinPath_inj (h.of_visited hd).1 (h.of_visited hd').1
    (h.names d hd entry hentry).chars.1 (h.names d' hd' entry' hentry').chars.1 heq
  obtain rfl : d = d' := List.inj_on_of_nodup_map hvisited hd hd' hpath
  refine hne ?_
  rw [Found.ofEntry, Found.ofEntry, hname]

theorem Explored.isFileBelow_iff (h : Explored u tree selections visited [] s)
    (hdone : s.pendingDirectories = []) {path : List Char} :
    IsFileBelow tree selections path ↔ path ∈ (filesBelow tree visited).map (·.remotePath) := by
  rw [List.mem_map]
  constructor
  · rintro ⟨directory, entry, hreach, hentry, hdir, rfl⟩
    obtain ⟨d, hd, rfl⟩ := List.mem_map.mp ((h.reaches_iff hdone).mp hreach)
    exact ⟨_, mem_filesBelow.mpr ⟨d, hd, entry, hentry, hdir, rfl⟩, rfl⟩
  · rintro ⟨f, hf, rfl⟩
    obtain ⟨d, hd, entry, hentry, hdir, rfl⟩ := mem_filesBelow.mp hf
    exact ⟨d.remotePath, entry, (h.of_visited hd).2, hentry, hdir, rfl⟩

/-- **The plan of an explored tree is the plan of the tree.** -/
theorem Explored.planOf (h : Explored u tree selections visited [] s)
    (hdone : s.pendingDirectories = []) :
    PlanOf u tree selections ⟨s.directories, s.files⟩ := by
  have htimes : ∀ path, (RemoteDownloadPlan.mk s.directories s.files).times path
      = timesSelected selections path +
        ((filesBelow tree visited).map (·.remotePath)).count path := by
    intro path
    rw [RemoteDownloadPlan.times, h.files_eq, List.count_append]
    rfl
  have hsound : ∀ target ∈ (RemoteDownloadPlan.mk s.directories s.files).targets,
      ∃ f ∈ foundOf tree selections visited, f.relativePath = target := by
    intro target htarget
    rcases List.mem_append.mp htarget with htarget | htarget
    · rw [h.inv.directories] at htarget
      obtain ⟨d, hd, rfl⟩ := List.mem_map.mp htarget
      exact ⟨_, h.inv.origin d hd, rfl⟩
    · rw [h.inv.files, List.map_map] at htarget
      obtain ⟨f, hf, rfl⟩ := List.mem_map.mp htarget
      exact ⟨f, List.mem_of_mem_filter hf, rfl⟩
  have hsafe : ∀ target ∈ (RemoteDownloadPlan.mk s.directories s.files).targets,
      ∀ segment ∈ target.splitOn '/', SafeName u segment := by
    intro target htarget
    obtain ⟨f, hf, rfl⟩ := hsound target htarget
    exact (h.inv.sound f hf).safe
  refine ⟨fun path hpath => ?_, fun path hpath => ?_, ?_, hsafe, fun base target htarget => ?_,
    h.inv.parents, ?_⟩
  · rw [htimes, List.count_eq_one_of_mem (h.nodup_remote hdone)
      ((h.isFileBelow_iff hdone).mp hpath)]
  · rw [htimes, List.count_eq_zero_of_not_mem fun hmem =>
      hpath ((h.isFileBelow_iff hdone).mpr hmem), Nat.add_zero]
  · exact h.inv.targets.nodup_iff.mp h.inv.distinct
  · exact localParts_joinLocalDownloadPath (hsafe target htarget) base
  · intro file hfile parent name heq hslash
    change file ∈ s.files at hfile
    rw [h.inv.files] at hfile
    obtain ⟨f, hf, rfl⟩ := List.mem_map.mp hfile
    have hparent := (h.inv.sound f (List.mem_of_mem_filter hf)).parent parent name heq hslash
    change parent ∈ s.directories
    rw [h.inv.directories, List.map_append]
    exact List.mem_append_left _ hparent

/-! ### The scan as a worklist -/

/-- The scan with more in front of its queue. -/
def Scan.front (q : List PendingDirectory) (s : Scan) : Scan :=
  { s with pendingDirectories := q ++ s.pendingDirectories }

variable {q batch : List PendingDirectory}

theorem ensureUniqueLocalTarget_front (relativePath kind : List Char) :
    (s.front q).ensureUniqueLocalTarget u relativePath kind
      = (s.ensureUniqueLocalTarget u relativePath kind).map (Scan.front q) := by
  unfold Scan.ensureUniqueLocalTarget
  dsimp only
  have hfront : (s.front q).seenLocalTargets = s.seenLocalTargets := rfl
  rw [hfront]
  by_cases hseen : u.localTargetKey relativePath ∈ s.seenLocalTargets
  · rw [if_pos hseen, if_pos hseen]
    rfl
  · rw [if_neg hseen, if_neg hseen]
    rfl

/-- An addition puts directories at the end of the queue. -/
theorem addDirectory_front (remotePath relativePath : List Char) :
    (s.front q).addDirectory u remotePath relativePath
      = (s.addDirectory u remotePath relativePath).map (Scan.front q) := by
  unfold Scan.addDirectory
  rw [ensureUniqueLocalTarget_front]
  dsimp only
  have hfront : (s.front q).seenRemoteDirectories = s.seenRemoteDirectories := rfl
  rw [hfront]
  by_cases hseen : normalizePath remotePath ∈ s.seenRemoteDirectories
  · rw [if_pos hseen, if_pos hseen]
    rfl
  · rw [if_neg hseen, if_neg hseen]
    cases s.ensureUniqueLocalTarget u relativePath "目录".toList with
    | error message => rfl
    | ok s₁ =>
      refine congrArg Except.ok ?_
      dsimp only [Scan.front]
      rw [List.append_assoc]

theorem addFile_front (remotePath relativePath : List Char) :
    (s.front q).addFile u remotePath relativePath
      = (s.addFile u remotePath relativePath).map (Scan.front q) := by
  unfold Scan.addFile
  rw [ensureUniqueLocalTarget_front]
  cases s.ensureUniqueLocalTarget u relativePath "文件".toList with
  | error message => rfl
  | ok s₁ => rfl

theorem addEntry_front (d : PendingDirectory) (entry : RemoteFileEntry) :
    (s.front q).addEntry u d entry = (s.addEntry u d entry).map (Scan.front q) := by
  unfold Scan.addEntry
  cases safePathSegment u entry.name d.remotePath with
  | error message => rfl
  | ok name =>
    change (if _ then _ else _) = Except.map _ (if _ then _ else _)
    split_ifs
    · exact addDirectory_front ..
    · exact addFile_front ..

theorem addListing_front (d : PendingDirectory) (entries : List RemoteFileEntry) :
    (s.front q).addListing u d entries = (s.addListing u d entries).map (Scan.front q) := by
  induction entries generalizing s with
  | nil => rfl
  | cons entry entries ih =>
    unfold Scan.addListing
    rw [List.foldlM_cons, List.foldlM_cons, addEntry_front]
    cases s.addEntry u d entry with
    | error message => rfl
    | ok s₁ => exact ih

/-- A directory is taken up alone: its listing is asked for and read. -/
def Scan.visit (u : Unicode) (tree : RemoteTree) (d : PendingDirectory) (s : Scan) : Option Scan :=
  match tree.listDirectory d.remotePath with
  | .error _ => none
  | .ok entries => (s.addListing u d entries).toOption

/-- The directories pending are a worklist. -/
def worklist (u : Unicode) (tree : RemoteTree) : Worklist Scan PendingDirectory where
  queue := Scan.pendingDirectories
  setQueue q s := { s with pendingDirectories := q }
  visit := Scan.visit u tree
  queue_setQueue _ _ := rfl
  setQueue_setQueue _ _ _ := rfl
  setQueue_queue _ := rfl
  visit_setQueue d q s := by
    unfold Scan.visit
    cases tree.listDirectory d.remotePath with
    | error error => rfl
    | ok entries =>
      dsimp only
      change ((s.front q).addListing u d entries).toOption = _
      rw [addListing_front]
      cases s.addListing u d entries with
      | error message => rfl
      | ok s₁ => rfl

theorem visit_worklist {entries : List RemoteFileEntry}
    (h : tree.listDirectory d.remotePath = .ok entries) :
    (worklist u tree).visit d s = (s.addListing u d entries).toOption := by
  change Scan.visit u tree d s = _
  rw [Scan.visit, h]

theorem visit_worklist_none {error : JsError} (h : tree.listDirectory d.remotePath = .error error) :
    (worklist u tree).visit d s = none := by
  change Scan.visit u tree d s = _
  rw [Scan.visit, h]

theorem visitAll_worklist {listings : List (List RemoteFileEntry)}
    (h : Listings tree batch listings) :
    (worklist u tree).visitAll batch s = (s.addBatch u (batch.zip listings)).toOption := by
  induction h generalizing s with
  | nil => rfl
  | @cons d entries batch listings hd _ ih =>
    rw [Worklist.visitAll, List.zip_cons_cons, Scan.addBatch, visit_worklist hd]
    cases s.addListing u d entries with
    | error message => rfl
    | ok s₁ => exact ih

/-- How the planning ends when directories are taken up one at a time: with a plan, or with
`none` when it throws. -/
def EndsWith (u : Unicode) (tree : RemoteTree) (selections : List RemoteDownloadSelection)
    (outcome : Option RemoteDownloadPlan) : Prop :=
  match Scan.empty.addSelections u selections with
  | .error _ => outcome = none
  | .ok s => ∃ r, (worklist u tree).Ends s r ∧
      outcome = r.map fun s => ⟨s.directories, s.files⟩

theorem EndsWith.unique {outcome outcome' : Option RemoteDownloadPlan}
    (h : EndsWith u tree selections outcome) (h' : EndsWith u tree selections outcome') :
    outcome = outcome' := by
  unfold EndsWith at h h'
  cases hstart : Scan.empty.addSelections u selections with
  | error message =>
    rw [hstart] at h h'
    exact h.trans h'.symm
  | ok s =>
    rw [hstart] at h h'
    obtain ⟨r, hr, rfl⟩ := h
    obtain ⟨r', hr', rfl⟩ := h'
    rw [hr.unique hr']

/-! ### Runs -/

/-- `Math.min` and `Math.max` keep the size of a batch between 1 and 12. -/
theorem batchSize_pos (concurrency : JsNumber) : 0 < batchSize concurrency := by
  cases concurrency with
  | nan => exact Nat.one_pos
  | posInfinity => exact Nat.succ_pos _
  | negInfinity => exact Nat.one_pos
  | finite value =>
    unfold batchSize
    dsimp only
    omega

theorem step_eq_some {size index : ℕ} {p p' : PlanState} (h : step u tree size p index = some p') :
    ∃ scan batch listings d, p = .listing scan batch listings ∧ batch[index]? = some d ∧
      listings[index]? = some none ∧
      ((∃ error message, tree.listDirectory d.remotePath = .error error ∧ p' = .thrown message) ∨
      ∃ entries, tree.listDirectory d.remotePath = .ok entries ∧
        (((listings.set index (some entries)).mapM id = none ∧
          p' = .listing scan batch (listings.set index (some entries))) ∨
        ∃ all, (listings.set index (some entries)).mapM id = some all ∧
          p' = Scan.continue size (scan.addBatch u (batch.zip all)))) := by
  unfold step at h
  split at h
  case h_2 => cases h
  case h_1 scan batch listings =>
    split at h
    case h_2 => cases h
    case h_1 d hd hnone =>
      refine ⟨scan, batch, listings, d, rfl, hd, hnone, ?_⟩
      split at h
      case h_1 error herror => exact Or.inl ⟨error, _, herror, (Option.some_inj.mp h).symm⟩
      case h_2 entries hentries =>
        refine Or.inr ⟨entries, hentries, ?_⟩
        dsimp only at h
        split at h
        case h_1 hmap => exact Or.inl ⟨hmap, (Option.some_inj.mp h).symm⟩
        case h_2 all hmap => exact Or.inr ⟨all, hmap, (Option.some_inj.mp h).symm⟩

/-- The listings that have completed are those of the tree. -/
def Answered (tree : RemoteTree) (batch : List PendingDirectory)
    (listings : List (Option (List RemoteFileEntry))) : Prop :=
  List.Forall₂ (fun d listing =>
    ∀ entries, listing = some entries → tree.listDirectory d.remotePath = .ok entries)
    batch listings

theorem Answered.set {listings : List (Option (List RemoteFileEntry))} {index : ℕ}
    {entries : List RemoteFileEntry} (h : Answered tree batch listings)
    (hd : batch[index]? = some d) (hlist : tree.listDirectory d.remotePath = .ok entries) :
    Answered tree batch (listings.set index (some entries)) := by
  induction h generalizing index with
  | nil => cases hd
  | @cons d' listing batch listings hfirst hrest ih =>
    cases index with
    | zero =>
      obtain rfl := Option.some_inj.mp hd
      exact .cons (fun _ heq => Option.some_inj.mp heq ▸ hlist) hrest
    | succ index => exact .cons hfirst (ih hd)

/-- When all have completed, they are the listings of the batch. -/
theorem Answered.listings {listings : List (Option (List RemoteFileEntry))}
    {all : List (List RemoteFileEntry)} (h : Answered tree batch listings)
    (hall : listings.mapM id = some all) : Listings tree batch all := by
  induction h generalizing all with
  | nil =>
    obtain rfl := Option.some_inj.mp hall
    exact .nil
  | @cons d listing batch listings hfirst _ ih =>
    rw [List.mapM_cons] at hall
    obtain ⟨entries, hentries, hall⟩ := Option.bind_eq_some_iff.mp hall
    obtain ⟨others, hothers, hall⟩ := Option.bind_eq_some_iff.mp hall
    obtain rfl := Option.some_inj.mp hall
    exact .cons (hfirst entries hentries) (ih hothers)

theorem none_mem_of_mapM {β : Type*} {l : List (Option β)} (h : l.mapM id = none) : none ∈ l := by
  induction l with
  | nil => cases h
  | cons x l ih =>
    rw [List.mapM_cons] at h
    cases x with
    | none => exact List.mem_cons_self ..
    | some y =>
      refine List.mem_cons_of_mem _ (ih ?_)
      cases hl : l.mapM id with
      | none => rfl
      | some ys =>
        rw [hl] at h
        cases h

/-- When all have completed, they are counted by the batch. -/
theorem countP_of_mapM {β : Type*} {l : List (Option β)} {all : List β}
    (h : l.mapM id = some all) : l.countP (·.isSome) = all.length := by
  induction l generalizing all with
  | nil =>
    obtain rfl := Option.some_inj.mp h
    rfl
  | cons x l ih =>
    rw [List.mapM_cons] at h
    obtain ⟨y, hy, h⟩ := Option.bind_eq_some_iff.mp h
    obtain ⟨ys, hys, h⟩ := Option.bind_eq_some_iff.mp h
    obtain rfl := Option.some_inj.mp h
    obtain rfl : x = some y := hy
    rw [List.countP_cons_of_pos rfl, ih hys, List.length_cons]

/-- **Every listing that completes is of another directory of the tree.** -/
theorem Explored.completed_le (h : Explored u tree selections visited batch s)
    {listings : List (Option (List RemoteFileEntry))} (hlist : Answered tree batch listings) :
    visited.length + listings.countP (·.isSome) ≤ tree.directories.length := by
  let completed := ((batch.zip listings).filter (·.2.isSome)).map (·.1)
  have hlength : completed.length = listings.countP (·.isSome) := by
    rw [List.length_map, ← List.countP_eq_length_filter]
    conv_rhs => rw [← List.map_snd_zip (Nat.le_of_eq hlist.length_eq.symm), List.countP_map]
    rfl
  have hsub : (visited ++ completed).Sublist (visited ++ batch) := by
    refine List.Sublist.append_left ?_ _
    conv_rhs => rw [← List.map_fst_zip (Nat.le_of_eq hlist.length_eq)]
    exact List.filter_sublist.map _
  have hnodup : ((visited ++ completed).map (·.remotePath)).Nodup := by
    have hall := h.inv.nodup
    rw [h.inv.seen, List.map_append] at hall
    exact (List.nodup_append.mp hall).1.sublist (hsub.map _)
  have hmem : (visited ++ completed).map (·.remotePath) ⊆ tree.directories := by
    intro path hpath
    obtain ⟨d, hd, rfl⟩ := List.mem_map.mp hpath
    rcases List.mem_append.mp hd with hd | hd
    · obtain ⟨entries, hentries⟩ := h.listed d hd
      exact tree.finite _ entries hentries
    · obtain ⟨⟨d', listing⟩, hpair, rfl⟩ := List.mem_map.mp hd
      obtain ⟨hpair, hsome⟩ := List.mem_filter.mp hpair
      obtain ⟨entries, rfl⟩ := Option.isSome_iff_exists.mp hsome
      exact tree.finite _ entries ((List.forall₂_iff_zip.mp hlist).2 hpair entries rfl)
  have hle := (List.subperm_of_subset hnodup hmem).length_le
  rw [List.length_map, List.length_append, hlength] at hle
  exact hle

/-- What holds after some listings have completed. -/
def At (u : Unicode) (tree : RemoteTree) (selections : List RemoteDownloadSelection)
    (events : List ℕ) : PlanState → Prop
  | .listing scan batch listings => ∃ visited, Explored u tree selections visited batch scan ∧
      Answered tree batch listings ∧ none ∈ listings ∧
      events.length = visited.length + listings.countP (·.isSome) ∧
      ∀ r, (worklist u tree).Ends (scan.front batch) r →
        EndsWith u tree selections (r.map fun s => ⟨s.directories, s.files⟩)
  | .returned plan => PlanOf u tree selections plan ∧ events.length ≤ tree.directories.length ∧
      EndsWith u tree selections (some plan)
  | .thrown _ => events.length ≤ tree.directories.length + 1 ∧ EndsWith u tree selections none

/-- At the head of the loop the plan is done, or a batch is asked for. -/
theorem at_next {size : ℕ} (hsize : 0 < size) {events : List ℕ}
    (h : Explored u tree selections visited [] s) (hevents : events.length = visited.length)
    (hends : ∀ r, (worklist u tree).Ends s r →
      EndsWith u tree selections (r.map fun s => ⟨s.directories, s.files⟩)) :
    At u tree selections events (s.next size) := by
  unfold Scan.next
  split_ifs with hdone
  · refine ⟨h.planOf hdone, ?_, hends (some s) (.done hdone)⟩
    have hnil : Answered tree [] [] := .nil
    have hle := h.completed_le hnil
    rw [List.countP_nil] at hle
    omega
  · have hqueue := (List.take_append_drop size s.pendingDirectories).symm
    have hinv := h.inv.take hqueue
    rw [List.append_nil] at hinv
    refine ⟨visited, ⟨hinv, h.listed, h.names⟩, ?_, ?_, ?_, ?_⟩
    · refine List.forall₂_map_right_iff.mpr (List.forall₂_same.mpr fun d _ entries heq => ?_)
      cases heq
    · obtain ⟨d, rest, hrest⟩ := List.exists_cons_of_ne_nil hdone
      obtain ⟨n, rfl⟩ := Nat.exists_eq_succ_of_ne_zero (Nat.ne_of_gt hsize)
      rw [hrest]
      exact List.mem_cons_self ..
    · rw [hevents, List.countP_map]
      simp
    · intro r hr
      rw [Scan.front, ← hqueue] at hr
      exact hends r hr

/-- **A listing that completes keeps this.** -/
theorem at_step {size index : ℕ} (hsize : 0 < size) {events : List ℕ} {p p' : PlanState}
    (h : At u tree selections events p) (hstep : step u tree size p index = some p') :
    At u tree selections (events ++ [index]) p' := by
  obtain ⟨scan, batch, listings, d, rfl, hd, hnone, hcase⟩ := step_eq_some hstep
  obtain ⟨visited, hexplored, hanswered, hmissing, hevents, hends⟩ := h
  have hlength : (events ++ [index]).length = events.length + 1 := List.length_append
  have hle := hexplored.completed_le hanswered
  rcases hcase with ⟨error, message, herror, rfl⟩ | ⟨entries, hentries, hcase⟩
  · refine ⟨by omega, hends none (.of_mem ?_ fun t => visit_worklist_none herror)⟩
    exact List.mem_append_left _ (List.mem_of_getElem? hd)
  · have hanswered' := hanswered.set hd hentries
    have hcount : (listings.set index (some entries)).countP (·.isSome)
        = listings.countP (·.isSome) + 1 :=
      Pool.countP_set (p := fun o : Option (List RemoteFileEntry) => o.isSome) hnone
        (some entries)
    rcases hcase with ⟨hmap, rfl⟩ | ⟨all, hall, rfl⟩
    · exact ⟨visited, hexplored, hanswered', none_mem_of_mapM hmap, by omega, hends⟩
    · have hlistings := hanswered'.listings hall
      have hvisit := visitAll_worklist (u := u) (s := scan) hlistings
      cases hadd : scan.addBatch u (batch.zip all) with
      | error message =>
        rw [hadd] at hvisit
        exact ⟨by omega, hends none (.of_batch_none hvisit)⟩
      | ok scan' =>
        rw [hadd] at hvisit
        refine at_next hsize (hexplored.addBatch hlistings hadd) ?_ fun r hr => hends r ?_
        · have hfull := countP_of_mapM hall
          have hbatch := hlistings.length_eq
          rw [hlength, List.length_append]
          omega
        · exact .of_batch hvisit hr

theorem run_at {concurrency : JsNumber} {events : List ℕ} {p : PlanState}
    (hrun : (buildRemoteDownloadPlan u tree selections concurrency).run events = some p) :
    At u tree selections events p := by
  refine Machine.run_history_invariant (J := At u tree selections) ?_
    (fun as s a s' h hstep => at_step (batchSize_pos concurrency) h hstep) hrun
  change At u tree selections [] (start u selections (batchSize concurrency))
  unfold start
  cases hstart : Scan.empty.addSelections u selections with
  | error message =>
    refine ⟨Nat.zero_le _, ?_⟩
    unfold EndsWith
    rw [hstart]
  | ok s =>
    have hempty : Inv u tree selections [] [] .empty := inv_empty
    have hinv := hempty.addSelections (fun _ hmem => hmem) hstart
    have hexplored : Explored u tree selections [] [] s := by
      refine ⟨?_, fun d hd => absurd hd List.not_mem_nil, fun d hd => absurd hd List.not_mem_nil⟩
      rw [foundOf, List.flatMap_nil, List.append_nil]
      exact hinv
    refine at_next (batchSize_pos concurrency) hexplored rfl fun r hr => ?_
    unfold EndsWith
    rw [hstart]
    exact ⟨r, hr, rfl⟩

theorem step_isSome {size : ℕ} {scan : Scan} {listings : List (Option (List RemoteFileEntry))}
    (hanswered : Answered tree batch listings) (hmissing : none ∈ listings) :
    ∃ index, (step u tree size (.listing scan batch listings) index).isSome = true := by
  obtain ⟨index, hlt, hnone⟩ := List.mem_iff_getElem.mp hmissing
  have hnone' : listings[index]? = some none := List.getElem?_eq_some_iff.mpr ⟨hlt, hnone⟩
  have hlt' : index < batch.length := hanswered.length_eq ▸ hlt
  refine ⟨index, ?_⟩
  unfold step
  dsimp only
  rw [List.getElem?_eq_getElem hlt', hnone']
  dsimp only
  cases tree.listDirectory batch[index].remotePath with
  | error error => rfl
  | ok entries =>
    dsimp only
    cases (listings.set index (some entries)).mapM id with
    | none => rfl
    | some all => rfl

/-- **A download plan is that of the tree.**  For every finite tree with any names in it, every
selection, every concurrency and every order in which listings complete: there is no endless
planning, one listing completes for each directory of the tree at most, and it can go on until
it has returned or thrown; a plan that is returned has every file that the tree has below the
selected directories once, and every file selected itself once for its selection, under
targets that are distinct ignoring case, are made of safe names, lie in the local directory and
come after the directories that hold them; and every other run of the planning, with whatever
concurrency, ends in the same way. -/
theorem buildRemoteDownloadPlan_exact (u : Unicode) (tree : RemoteTree)
    (selections : List RemoteDownloadSelection) (concurrency : JsNumber) {events : List ℕ}
    {p : PlanState}
    (hrun : (buildRemoteDownloadPlan u tree selections concurrency).run events = some p) :
    events.length ≤ tree.directories.length + 1 ∧
      (p.outcome = none → ∃ index p',
        (buildRemoteDownloadPlan u tree selections concurrency).step p index = some p') ∧
      (∀ plan, p = .returned plan → PlanOf u tree selections plan) ∧
      ∀ concurrency' events' p',
        (buildRemoteDownloadPlan u tree selections concurrency').run events' = some p' →
        p.outcome ≠ none → p'.outcome ≠ none → p.outcome = p'.outcome := by
  have hat := run_at hrun
  have hend : ∀ {events p outcome}, At u tree selections events p → p.outcome = some outcome →
      EndsWith u tree selections outcome := by
    intro events p outcome h hout
    cases p with
    | listing => cases hout
    | returned plan =>
      obtain rfl := Option.some_inj.mp hout
      exact h.2.2
    | thrown message =>
      obtain rfl := Option.some_inj.mp hout
      exact h.2
  refine ⟨?_, fun hnone => ?_, ?_, fun concurrency' events' p' hrun' hp hp' => ?_⟩
  · cases p with
    | listing scan batch listings =>
      obtain ⟨visited, hexplored, hanswered, -, hevents, -⟩ := hat
      have hle := hexplored.completed_le hanswered
      omega
    | returned plan => exact Nat.le_succ_of_le hat.2.1
    | thrown message => exact hat.1
  · cases p with
    | listing scan batch listings =>
      obtain ⟨visited, -, hanswered, hmissing, -⟩ := hat
      obtain ⟨index, hsome⟩ := step_isSome hanswered hmissing
      exact ⟨index, Option.isSome_iff_exists.mp hsome⟩
    | returned plan => cases hnone
    | thrown message => cases hnone
  · rintro plan rfl
    exact hat.1
  · obtain ⟨outcome, hout⟩ := Option.ne_none_iff_exists'.mp hp
    obtain ⟨outcome', hout'⟩ := Option.ne_none_iff_exists'.mp hp'
    rw [hout, hout', (hend hat hout).unique (hend (run_at hrun') hout')]

/-- The case mapping of the basic letters. -/
def exampleUnicode : Unicode where
  nfc text := text
  toUpperCase text := text.map Char.toUpper

/-- A tree of two directories with a file in each. -/
def exampleTree : RemoteTree where
  listDirectory path :=
    if path = "/srv".toList then
      .ok [⟨"notes".toList, .file⟩, ⟨"logs".toList, .directory⟩]
    else if path = "/srv/logs".toList then .ok [⟨"today".toList, .symlink⟩]
    else .error .other
  directories := ["/srv".toList, "/srv/logs".toList]
  finite path entries h := by
    split_ifs at h with hsrv hlogs
    · exact hsrv ▸ List.mem_cons_self ..
    · exact hlogs ▸ List.mem_cons_of_mem _ (List.mem_cons_self ..)

/-- The outer directory of the example, selected. -/
def exampleSelections : List RemoteDownloadSelection :=
  [⟨"/srv/".toList, "srv".toList, .directory⟩]

/-- Its plan. -/
def examplePlan : RemoteDownloadPlan :=
  ⟨["srv".toList, "srv/logs".toList],
    [⟨"/srv/notes".toList, "srv/notes".toList⟩,
      ⟨"/srv/logs/today".toList, "srv/logs/today".toList⟩]⟩

/-- The plan of the example is the plan of its tree. -/
theorem buildRemoteDownloadPlan_exact_srv :
    PlanOf exampleUnicode exampleTree exampleSelections examplePlan := by
  have hrun : (buildRemoteDownloadPlan exampleUnicode exampleTree exampleSelections
      .posInfinity).run [0, 0] = some (.returned examplePlan) := by decide
  exact (buildRemoteDownloadPlan_exact exampleUnicode exampleTree exampleSelections .posInfinity
    hrun).2.2.1 examplePlan rfl

/-- A file that is selected beside the directory it is in is in the plan twice. -/
theorem file_listed_twice : ∃ plan,
    (buildRemoteDownloadPlan exampleUnicode exampleTree
      [⟨"/srv/logs".toList, "logs".toList, .directory⟩,
        ⟨"/srv/logs/today".toList, "today".toList, .symlink⟩] .nan).run [0]
        = some (.returned plan) ∧
      plan.files = [⟨"/srv/logs/today".toList, "today".toList⟩,
        ⟨"/srv/logs/today".toList, "logs/today".toList⟩] ∧
      ¬ ∀ file ∈ plan.files, plan.times file.remotePath = 1 :=
  ⟨⟨["logs".toList], [⟨"/srv/logs/today".toList, "today".toList⟩,
    ⟨"/srv/logs/today".toList, "logs/today".toList⟩]⟩, by decide, rfl, by decide⟩

end DownloadPlan
end Frontend
end HelmSsh
