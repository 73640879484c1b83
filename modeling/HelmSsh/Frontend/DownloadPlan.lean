/-
# The plan of a download from a remote directory tree

`buildRemoteDownloadPlan` of `src/app/remoteDownloadPlan.ts`: from a selection of files and
directories, the directories to create and the files to fetch, with the paths they get below
the local directory.  Directories are listed in batches, the listings of a batch complete in
any order, and the batch is read when all have completed.

The listings are those of a finite tree (`RemoteTree`), which may hold any names.
`String.prototype.normalize` and `toUpperCase` are parameters (`Unicode`): two local targets
are the same ignoring case when these make the same text of them.

* `Scan.add_eq_ok` — what an addition of `addDirectory` or `addFile` does, when it does not
  throw.

That the plan is the plan of the tree is proved in `HelmSsh.Frontend.DownloadPlanExact`.
-/

import HelmSsh.Machine
import HelmSsh.Worklist
import HelmSsh.Frontend.RemotePath
import Mathlib.Data.List.Nodup
import Mathlib.Data.List.Basic

namespace HelmSsh
namespace Frontend
namespace DownloadPlan

open RemotePath

/-- `RemoteFileEntry["fileType"]`. -/
inductive FileType
  | directory
  | file
  | symlink
  | other
  deriving DecidableEq

/-- `RemoteDownloadSelection`. -/
structure RemoteDownloadSelection where
  remotePath : List Char
  fileName : List Char
  fileType : FileType
  deriving DecidableEq

/-- `RemoteFileEntry`, as far as the plan reads it. -/
structure RemoteFileEntry where
  name : List Char
  fileType : FileType
  deriving DecidableEq

/-- `RemoteDownloadFile`. -/
structure RemoteDownloadFile where
  remotePath : List Char
  relativePath : List Char
  deriving DecidableEq

/-- `RemoteDownloadPlan`. -/
structure RemoteDownloadPlan where
  directories : List (List Char)
  files : List RemoteDownloadFile
  deriving DecidableEq

/-- `PendingDirectory`. -/
structure PendingDirectory where
  remotePath : List Char
  relativePath : List Char
  deriving DecidableEq

/-- `normalize("NFC")` and `toUpperCase` of a string. -/
structure Unicode where
  nfc : List Char → List Char
  toUpperCase : List Char → List Char

/-- The key under which a local target is kept in `seenLocalTargets`. -/
def Unicode.localTargetKey (u : Unicode) (relativePath : List Char) : List Char :=
  u.toUpperCase (u.nfc relativePath)

/-- What a rejected promise can hold. -/
inductive JsError
  | error (message : List Char)
  | text (text : List Char)
  | object (message : Option (List Char))
  | other
  deriving DecidableEq

/-- `downloadPlanErrorMessage`. -/
def downloadPlanErrorMessage : JsError → List Char
  | .error message => if message ≠ [] then message else "未知错误".toList
  | .text text => if text ≠ [] then text else "未知错误".toList
  | .object (some message) => if message ≠ [] then message else "未知错误".toList
  | .object none => "未知错误".toList
  | .other => "未知错误".toList

/-! ### Names -/

/-- `isWindowsReservedName`: the regular expression is one of the four names, or three letters
and a digit that is not zero. -/
def isWindowsReservedName (u : Unicode) (name : List Char) : Bool :=
  let baseName := u.toUpperCase (name.takeWhile (· ≠ '.'))
  baseName ∈ ["CON".toList, "PRN".toList, "AUX".toList, "NUL".toList] ||
    (baseName.take 3 ∈ ["COM".toList, "LPT".toList] &&
      baseName.drop 3 ∈ "123456789".toList.map ([·]))

/-- The first check of `safePathSegment`: a name that is no name of an entry. -/
def isUnsafeName (name : List Char) : Bool :=
  name = [] || name.all isJsSpace || name = ['.'] || name = ['.', '.'] ||
    name.any fun c => c = '\\' || c = '/' || c = '\x00'

/-- The second check of `safePathSegment`: a name that Windows does not take. -/
def isUnsafeOnWindows (u : Unicode) (name : List Char) : Bool :=
  (name.any fun c => c ∈ "<>:\"|?*".toList || c.toNat ≤ 0x1f) ||
    name.getLast? = some '.' || name.getLast? = some ' ' || isWindowsReservedName u name

/-- `safePathSegment`. -/
def safePathSegment (u : Unicode) (name parentPath : List Char) : Except (List Char) (List Char) :=
  if isUnsafeName name then
    .error ("远端目录 ".toList ++ parentPath ++ " 包含不安全的名称：".toList
      ++ if name ≠ [] then name else "（空名称）".toList)
  else if isUnsafeOnWindows u name then
    .error ("远端名称无法安全保存到 Windows：".toList ++ name)
  else .ok name

/-! ### The scan -/

/-- The local variables of `buildRemoteDownloadPlan`. -/
structure Scan where
  directories : List (List Char)
  files : List RemoteDownloadFile
  pendingDirectories : List PendingDirectory
  seenRemoteDirectories : List (List Char)
  seenLocalTargets : List (List Char)
  deriving DecidableEq

/-- The variables at the start. -/
def Scan.empty : Scan :=
  ⟨[], [], [], [], []⟩

/-- `ensureUniqueLocalTarget`. -/
def Scan.ensureUniqueLocalTarget (u : Unicode) (s : Scan) (relativePath kind : List Char) :
    Except (List Char) Scan :=
  let localTargetKey := u.localTargetKey relativePath
  if localTargetKey ∈ s.seenLocalTargets then
    .error ("远端内容存在重复".toList ++ kind ++ "名，无法安全下载：".toList ++ relativePath)
  else .ok { s with seenLocalTargets := s.seenLocalTargets ++ [localTargetKey] }

/-- `addDirectory`. -/
def Scan.addDirectory (u : Unicode) (s : Scan) (remotePath relativePath : List Char) :
    Except (List Char) Scan :=
  let normalizedRemotePath := normalizePath remotePath
  if normalizedRemotePath ∈ s.seenRemoteDirectories then .ok s
  else do
    let s ← s.ensureUniqueLocalTarget u relativePath "目录".toList
    return { s with
      seenRemoteDirectories := s.seenRemoteDirectories ++ [normalizedRemotePath]
      directories := s.directories ++ [relativePath]
      pendingDirectories := s.pendingDirectories ++ [⟨normalizedRemotePath, relativePath⟩] }

/-- `addFile`. -/
def Scan.addFile (u : Unicode) (s : Scan) (remotePath relativePath : List Char) :
    Except (List Char) Scan := do
  let s ← s.ensureUniqueLocalTarget u relativePath "文件".toList
  return { s with files := s.files ++ [⟨normalizePath remotePath, relativePath⟩] }

/-- The body of the loop over the selections. -/
def Scan.addSelection (u : Unicode) (s : Scan) (selection : RemoteDownloadSelection) :
    Except (List Char) Scan := do
  let fileName ← safePathSegment u selection.fileName selection.remotePath
  let remotePath := normalizePath selection.remotePath
  if selection.fileType = .directory then s.addDirectory u remotePath fileName
  else s.addFile u remotePath fileName

/-- The body of the loop over the entries of a listing. -/
def Scan.addEntry (u : Unicode) (directory : PendingDirectory) (s : Scan)
    (entry : RemoteFileEntry) : Except (List Char) Scan := do
  let name ← safePathSegment u entry.name directory.remotePath
  let remotePath := joinPath directory.remotePath name
  let relativePath := directory.relativePath ++ '/' :: name
  if entry.fileType = .directory then s.addDirectory u remotePath relativePath
  else s.addFile u remotePath relativePath

/-- The loop over the selections. -/
def Scan.addSelections (u : Unicode) (s : Scan) (selections : List RemoteDownloadSelection) :
    Except (List Char) Scan :=
  selections.foldlM (Scan.addSelection u) s

/-- The loop over the entries of a listing. -/
def Scan.addListing (u : Unicode) (directory : PendingDirectory) (s : Scan)
    (entries : List RemoteFileEntry) : Except (List Char) Scan :=
  entries.foldlM (Scan.addEntry u directory) s

/-- The loop over the directories of a batch and their listings. -/
def Scan.addBatch (u : Unicode) : Scan → List (PendingDirectory × List RemoteFileEntry) →
    Except (List Char) Scan
  | s, [] => .ok s
  | s, (directory, entries) :: batch => do
    let s ← s.addListing u directory entries
    s.addBatch u batch

/-! ### The batches -/

/-- A number of the language. -/
inductive JsNumber
  | nan
  | posInfinity
  | negInfinity
  | finite (value : Rat)

/-- `Math.max(1, Math.min(12, Math.floor(concurrency) || 1))`. -/
def batchSize : JsNumber → ℕ
  | .nan => 1
  | .posInfinity => 12
  | .negInfinity => 1
  | .finite value =>
    let floor := if value.floor = 0 then 1 else value.floor
    (max 1 (min 12 floor)).toNat

/-- A finite remote tree, as the listings show it. -/
structure RemoteTree where
  /-- `listDirectory`. -/
  listDirectory : List Char → Except JsError (List RemoteFileEntry)
  /-- The directories that can be listed. -/
  directories : List (List Char)
  finite : ∀ path entries, listDirectory path = .ok entries → path ∈ directories

/-- Where the function stands. -/
inductive PlanState
  /-- The listings of a batch that have completed so far. -/
  | listing (scan : Scan) (batch : List PendingDirectory)
      (listings : List (Option (List RemoteFileEntry)))
  | returned (plan : RemoteDownloadPlan)
  | thrown (message : List Char)
  deriving DecidableEq

/-- The head of the `while` loop: the plan is returned, or the listings of the next batch are
asked for. -/
def Scan.next (size : ℕ) (s : Scan) : PlanState :=
  if s.pendingDirectories = [] then .returned ⟨s.directories, s.files⟩
  else
    let batch := s.pendingDirectories.take size
    .listing { s with pendingDirectories := s.pendingDirectories.drop size } batch
      (batch.map fun _ => none)

/-- What the loop goes on with. -/
def Scan.continue (size : ℕ) : Except (List Char) Scan → PlanState
  | .error message => .thrown message
  | .ok s => s.next size

/-- The state after the loop over the selections. -/
def start (u : Unicode) (selections : List RemoteDownloadSelection) (size : ℕ) : PlanState :=
  Scan.continue size (Scan.empty.addSelections u selections)

/-- The listing of a directory of the batch completes.  The first that fails makes the function
throw; when the last one completes, the batch is read. -/
def step (u : Unicode) (tree : RemoteTree) (size : ℕ) (s : PlanState) (index : ℕ) :
    Option PlanState :=
  match s with
  | .listing scan batch listings =>
    match batch[index]?, listings[index]? with
    | some directory, some none =>
      match tree.listDirectory directory.remotePath with
      | .error error =>
        some (.thrown ("读取远端目录 ".toList ++ directory.remotePath ++ " 失败：".toList
          ++ downloadPlanErrorMessage error))
      | .ok entries =>
        let listings := listings.set index (some entries)
        match listings.mapM id with
        | none => some (.listing scan batch listings)
        | some entries => some (Scan.continue size (scan.addBatch u (batch.zip entries)))
    | _, _ => none
  | _ => none

/-- `buildRemoteDownloadPlan`; an event is the completion of the listing of a directory of the
batch, by its index. -/
def buildRemoteDownloadPlan (u : Unicode) (tree : RemoteTree)
    (selections : List RemoteDownloadSelection) (concurrency : JsNumber) :
    Machine PlanState ℕ where
  init := start u selections (batchSize concurrency)
  step := step u tree (batchSize concurrency)

/-- How a run has ended: with a plan, or `none` when it has thrown. -/
def PlanState.outcome : PlanState → Option (Option RemoteDownloadPlan)
  | .listing .. => none
  | .returned plan => some (some plan)
  | .thrown _ => some none

/-! ### What an addition does -/

/-- Something that the loops come across: a selection, or an entry of a directory. -/
structure Found where
  remotePath : List Char
  relativePath : List Char
  directory : Bool
  deriving DecidableEq

/-- What a selection stands for. -/
def Found.ofSelection (selection : RemoteDownloadSelection) : Found :=
  ⟨normalizePath selection.remotePath, selection.fileName, selection.fileType = .directory⟩

/-- What an entry of a directory stands for. -/
def Found.ofEntry (directory : PendingDirectory) (entry : RemoteFileEntry) : Found :=
  ⟨joinPath directory.remotePath entry.name, directory.relativePath ++ '/' :: entry.name,
    entry.fileType = .directory⟩

/-- `addDirectory` or `addFile`. -/
def Scan.add (u : Unicode) (s : Scan) (found : Found) : Except (List Char) Scan :=
  if found.directory then s.addDirectory u found.remotePath found.relativePath
  else s.addFile u found.remotePath found.relativePath

/-- The names that `safePathSegment` lets through. -/
structure SafeName (u : Unicode) (name : List Char) : Prop where
  entry : isUnsafeName name = false
  windows : isUnsafeOnWindows u name = false

variable {u : Unicode} {tree : RemoteTree} {s s' : Scan} {name parentPath : List Char}

theorem safePathSegment_eq_ok {segment : List Char}
    (h : safePathSegment u name parentPath = .ok segment) : segment = name ∧ SafeName u name := by
  unfold safePathSegment at h
  split_ifs at h with hentry hwindows
  exact ⟨(Except.ok.inj h).symm, Bool.not_eq_true _ ▸ hentry, Bool.not_eq_true _ ▸ hwindows⟩

/-- A safe name has no slash of either kind, and is a proper part of a path. -/
theorem SafeName.chars (h : SafeName u name) : Proper name ∧ '\\' ∉ name ∧ '\x00' ∉ name := by
  have hentry := h.entry
  simp only [isUnsafeName, Bool.or_eq_false_iff, decide_eq_false_iff_not, List.any_eq_false,
    Bool.or_eq_true, decide_eq_true_iff, not_or] at hentry
  obtain ⟨⟨⟨⟨hnil, -⟩, hdot⟩, hdots⟩, hchars⟩ := hentry
  exact ⟨⟨hnil, hdot, hdots, fun hmem => (hchars _ hmem).1.2 rfl⟩,
    fun hmem => (hchars _ hmem).1.1 rfl, fun hmem => (hchars _ hmem).2 rfl⟩

theorem Scan.ensureUniqueLocalTarget_eq_ok {relativePath kind : List Char}
    (h : s.ensureUniqueLocalTarget u relativePath kind = .ok s') :
    u.localTargetKey relativePath ∉ s.seenLocalTargets ∧
      s' = { s with
        seenLocalTargets := s.seenLocalTargets ++ [u.localTargetKey relativePath] } := by
  unfold Scan.ensureUniqueLocalTarget at h
  dsimp only at h
  split_ifs at h with hseen
  exact ⟨hseen, (Except.ok.inj h).symm⟩

/-- What an addition does: a file is a new target, and so is a directory whose remote path was
not met before. -/
theorem Scan.add_eq_ok {f : Found} (hnormal : normalizePath f.remotePath = f.remotePath)
    (h : s.add u f = .ok s') :
    (f.directory = true ∧ f.remotePath ∈ s.seenRemoteDirectories ∧ s' = s) ∨
    (u.localTargetKey f.relativePath ∉ s.seenLocalTargets ∧
      ((f.directory = true ∧ f.remotePath ∉ s.seenRemoteDirectories ∧
        s' = { s with
          seenLocalTargets := s.seenLocalTargets ++ [u.localTargetKey f.relativePath]
          seenRemoteDirectories := s.seenRemoteDirectories ++ [f.remotePath]
          directories := s.directories ++ [f.relativePath]
          pendingDirectories := s.pendingDirectories ++ [⟨f.remotePath, f.relativePath⟩] }) ∨
      (f.directory = false ∧
        s' = { s with
          seenLocalTargets := s.seenLocalTargets ++ [u.localTargetKey f.relativePath]
          files := s.files ++ [⟨f.remotePath, f.relativePath⟩] }))) := by
  unfold Scan.add at h
  split_ifs at h with hdir
  · unfold Scan.addDirectory at h
    dsimp only at h
    rw [hnormal] at h
    split_ifs at h with hseen
    · exact Or.inl ⟨hdir, hseen, (Except.ok.inj h).symm⟩
    · cases hunique : s.ensureUniqueLocalTarget u f.relativePath "目录".toList with
      | error message =>
        rw [hunique] at h
        cases h
      | ok s₁ =>
        rw [hunique] at h
        obtain ⟨hkey, rfl⟩ := Scan.ensureUniqueLocalTarget_eq_ok hunique
        exact Or.inr ⟨hkey, Or.inl ⟨hdir, hseen, (Except.ok.inj h).symm⟩⟩
  · unfold Scan.addFile at h
    rw [hnormal] at h
    cases hunique : s.ensureUniqueLocalTarget u f.relativePath "文件".toList with
    | error message =>
      rw [hunique] at h
      cases h
    | ok s₁ =>
      rw [hunique] at h
      obtain ⟨hkey, rfl⟩ := Scan.ensureUniqueLocalTarget_eq_ok hunique
      exact Or.inr ⟨hkey, Or.inr ⟨Bool.not_eq_true _ ▸ hdir, (Except.ok.inj h).symm⟩⟩

theorem Scan.addSelection_eq_ok {selection : RemoteDownloadSelection}
    (h : s.addSelection u selection = .ok s') :
    SafeName u selection.fileName ∧ s.add u (.ofSelection selection) = .ok s' := by
  unfold Scan.addSelection at h
  cases hsafe : safePathSegment u selection.fileName selection.remotePath with
  | error message =>
    rw [hsafe] at h
    cases h
  | ok segment =>
    obtain ⟨rfl, hname⟩ := safePathSegment_eq_ok hsafe
    rw [hsafe] at h
    refine ⟨hname, ?_⟩
    rw [← h]
    by_cases hdir : selection.fileType = .directory
    · simp only [Scan.add, Found.ofSelection, hdir, decide_true, if_true]
      rfl
    · simp only [Scan.add, Found.ofSelection, hdir, decide_false, if_false]
      rfl

theorem Scan.addEntry_eq_ok {directory : PendingDirectory} {entry : RemoteFileEntry}
    (h : s.addEntry u directory entry = .ok s') :
    SafeName u entry.name ∧ s.add u (.ofEntry directory entry) = .ok s' := by
  unfold Scan.addEntry at h
  cases hsafe : safePathSegment u entry.name directory.remotePath with
  | error message =>
    rw [hsafe] at h
    cases h
  | ok segment =>
    obtain ⟨rfl, hname⟩ := safePathSegment_eq_ok hsafe
    rw [hsafe] at h
    refine ⟨hname, ?_⟩
    rw [← h]
    by_cases hdir : entry.fileType = .directory
    · simp only [Scan.add, Found.ofEntry, hdir, decide_true, if_true]
      rfl
    · simp only [Scan.add, Found.ofEntry, hdir, decide_false, if_false]
      rfl

end DownloadPlan
end Frontend
end HelmSsh
