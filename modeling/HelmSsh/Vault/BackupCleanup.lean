/-
# Which files of backups may be deleted

`backup_cleanup_target` of `src-tauri/src/backup.rs`: of a backup record, whose file name and
location may be any texts, it makes what is deleted with the record, or nothing.  A backup of the
program's own (`OwnBackup`) is a local file in the configured directory after its path was brought
to its lexical normal form, or a file directly inside the configured WebDAV base or S3 prefix.

The name of a local file is checked before the path is brought to its normal form.  On Windows,
the last component of a verbatim path can hold slashes, which separate names only then, and the
file that is deleted has the name behind the last of them (`Hidden`, `hidden_verbatim`).  The file
name of a WebDAV or S3 record is only looked at from its ends.  It can hold separators, and then
what is built from it lies elsewhere (`Misplaced`).

* `fileName_normalizeAbsolutePath` — the name of the file that a location leads to.
* `backupCleanupTarget_own_iff` — exactly when nothing else is deleted.

The crate `url` is outside of the source (`UrlCrate`), and so is the current directory.
-/

import HelmSsh.StdPath
import HelmSsh.Vault.BackupRecords
import HelmSsh.Vault.XmlText

namespace HelmSsh
namespace Vault
namespace BackupCleanup

open Config StdPath

/-- What is used of the crate `url`. -/
structure UrlCrate where
  Url : Type
  parse : List Char → Option Url
  scheme : Url → List Char
  hostStr : Url → Option (List Char)
  portOrKnownDefault : Url → Option ℕ
  username : Url → List Char
  password : Url → Option (List Char)
  path : Url → List Char
  query : Url → Option (List Char)
  fragment : Url → Option (List Char)
  toString : Url → List Char

/-- What a check takes from outside. -/
structure Outside where
  platform : Platform
  /-- `std::env::current_dir`. -/
  currentDir : Option (List Char)
  urls : UrlCrate

/-- `BackupCleanupTarget`. -/
inductive BackupCleanupTarget
  | local (path : List Component)
  | webdav (config : WebdavBackupConfig) (target : List Char)
  | s3 (config : S3BackupConfig) (key : List Char)
  deriving DecidableEq

/-! ### Names and paths -/

/-- How the names of backups start. -/
def backupStart : List Char := "helm-backup-".toList

/-- How they end. -/
def backupEnds : List (List Char) := [".zip".toList, ".rpvault".toList]

/-- `is_backup_file`. -/
def isBackupFile (fileName : List Char) : Bool :=
  let lower := fileName.map Char.toLower
  backupStart <+: lower && backupEnds.any (· <:+ lower)

/-- `file_names_equal`. -/
def fileNamesEqual (platform : Platform) (left right : List Char) : Bool :=
  match platform with
  | .windows => XmlText.eqIgnoreAsciiCase left right
  | .unix => left = right

/-- `paths_equal`. -/
def pathsEqual (platform : Platform) (left right : List Component) : Bool :=
  match platform with
  | .windows => XmlText.eqIgnoreAsciiCase (render platform left) (render platform right)
  | .unix => left = right

/-- The path itself, or in the current directory. -/
def absolutePath (outside : Outside) (path : List Char) : Option (List Component) :=
  if isAbsolute outside.platform path then some (components outside.platform path)
  else outside.currentDir.map fun directory =>
    push outside.platform (components outside.platform directory) path

/-- `normalize_absolute_path`. -/
def normalizeAbsolutePath (outside : Outside) (path : List Char) : Option (List Component) :=
  (absolutePath outside path).bind (normalize outside.platform)

/-- `local_backup_delete_path`. -/
def localBackupDeletePath (outside : Outside) (settings : BackupSettings) (record : BackupRecord) :
    Option (List Component) := do
  guard (record.targetKind = "local" ∧ record.status = "success")
  let configuredDirectory ← configuredLocalBackupDirectory settings
  let target := (Text.trim record.targetPath).toList
  let targetName ← fileName (components outside.platform target)
  guard (isBackupFile targetName ∧
    fileNamesEqual outside.platform targetName record.fileName.toList)
  let configuredDirectory ← normalizeAbsolutePath outside configuredDirectory.toList
  let target ← normalizeAbsolutePath outside target
  let directory ← parent target
  guard (pathsEqual outside.platform directory configuredDirectory)
  return target

/-! ### Addresses and keys -/

/-- `join_remote_url`. -/
def joinRemoteUrl (endpoint remotePath : String) (fileName : List Char) :
    AppResult (List Char) := do
  let endpoint := XmlText.trimEndMatches '/' (Text.trim endpoint).toList
  refuse (endpoint = []) (.invalidInput "WebDAV 地址不能为空")
  let remotePath := Trim.trim (· = '/') (Text.trim remotePath).toList
  if remotePath = [] then
    return endpoint ++ '/' :: fileName
  else
    return endpoint ++ '/' :: remotePath ++ '/' :: fileName

/-- `urls_equal`. -/
def urlsEqual (urls : UrlCrate) (left right : urls.Url) : Bool :=
  XmlText.eqIgnoreAsciiCase (urls.scheme left) (urls.scheme right)
    && (urls.hostStr left).map (List.map Char.toLower)
      = (urls.hostStr right).map (List.map Char.toLower)
    && urls.portOrKnownDefault left = urls.portOrKnownDefault right
    && urls.username left = urls.username right
    && urls.password left = urls.password right
    && urls.path left = urls.path right
    && urls.query left = urls.query right
    && urls.fragment left = urls.fragment right

/-- `webdav_backup_delete_target`. -/
def webdavBackupDeleteTarget (outside : Outside) (config : WebdavBackupConfig)
    (record : BackupRecord) : Option (List Char) := do
  let joined ← (joinRemoteUrl config.endpoint config.remotePath record.fileName.toList).toOption
  let expected ← outside.urls.parse joined
  let target ← outside.urls.parse (Text.trim record.targetPath).toList
  guard (urlsEqual outside.urls target expected)
  return outside.urls.toString target

/-- `join_object_key`. -/
def joinObjectKey (keyPrefix : String) (fileName : List Char) : List Char :=
  let keyPrefix := Trim.trim (· = '/') (Text.trim keyPrefix).toList
  if keyPrefix = [] then fileName else keyPrefix ++ '/' :: fileName

/-- The start of a location in the bucket. -/
def bucketLocation (config : S3BackupConfig) : List Char :=
  "s3://".toList ++ (Text.trim config.bucket).toList ++ ['/']

/-- `s3_key_from_target`. -/
def s3KeyFromTarget (config : S3BackupConfig) (targetPath : List Char) : AppResult (List Char) := do
  let expected := bucketLocation config
  refuse (¬ expected <+: targetPath) (.invalidInput "S3 备份路径与当前 Bucket 不匹配")
  return targetPath.drop expected.length

/-- `s3_backup_delete_key`. -/
def s3BackupDeleteKey (config : S3BackupConfig) (record : BackupRecord) : Option (List Char) := do
  let key ← (s3KeyFromTarget config (Text.trim record.targetPath).toList).toOption
  guard (key = joinObjectKey config.keyPrefix record.fileName.toList)
  return key

/-- `backup_cleanup_target`. -/
def backupCleanupTarget (outside : Outside) (settings : BackupSettings) (record : BackupRecord) :
    Option BackupCleanupTarget :=
  if record.status ≠ "success" ∨ ¬ isBackupFile record.fileName.toList then none
  else if record.targetKind = "local" then
    (localBackupDeletePath outside settings record).map .local
  else if record.targetKind = "webdav" then
    (webdavBackupDeleteTarget outside settings.cloud.webdav record).map
      (.webdav settings.cloud.webdav)
  else if record.targetKind = "s3" then
    (s3BackupDeleteKey settings.cloud.s3 record).map (.s3 settings.cloud.s3)
  else none

/-! ### What may be deleted -/

/-- What ends a name in the path of an address: the crate takes a backslash for a slash. -/
def addressSeparators : List Char := ['/', '\\', '?', '#']

/-- What ends a name in a key. -/
def keySeparators : List Char := ['/']

/-- The name of a backup that is one segment of an address or of a key. -/
structure SegmentName (separators fileName : List Char) : Prop where
  backup : isBackupFile fileName = true
  segment : ∀ c ∈ fileName, c ∉ separators

/-- The location of a record is the address of its file name under the configured base. -/
def AtAddress (outside : Outside) (config : WebdavBackupConfig) (record : BackupRecord)
    (target : List Char) : Prop :=
  ∃ joined expected url,
    joinRemoteUrl config.endpoint config.remotePath record.fileName.toList = .ok joined ∧
    outside.urls.parse joined = some expected ∧
    outside.urls.parse (Text.trim record.targetPath).toList = some url ∧
    urlsEqual outside.urls url expected = true ∧ target = outside.urls.toString url

/-- The location of a record is the key of its file name under the configured prefix. -/
def AtKey (config : S3BackupConfig) (record : BackupRecord) (key : List Char) : Prop :=
  key = joinObjectKey config.keyPrefix record.fileName.toList ∧
    (Text.trim record.targetPath).toList = bucketLocation config ++ key

/-- **A backup of the program's own**: a file of the form of its names directly inside the
configured directory, the configured base or the configured prefix. -/
def OwnBackup (outside : Outside) (settings : BackupSettings) (record : BackupRecord) :
    BackupCleanupTarget → Prop
  | .local path => ∃ text configured directory name,
    configuredLocalBackupDirectory settings = some text ∧
      normalizeAbsolutePath outside text.toList = some configured ∧
      path = directory ++ [.normal name] ∧
      pathsEqual outside.platform directory configured = true ∧ isBackupFile name = true
  | .webdav config target => config = settings.cloud.webdav ∧
    SegmentName addressSeparators record.fileName.toList ∧ AtAddress outside config record target
  | .s3 config key => config = settings.cloud.s3 ∧
    SegmentName keySeparators record.fileName.toList ∧ AtKey config record key

/-- The location of a local record leads into the configured directory, and its last component is
the file name of the record. -/
structure LocatedInside (outside : Outside) (settings : BackupSettings) (record : BackupRecord)
    (name : List Char) (path : List Component) : Prop where
  kind : record.targetKind = "local"
  status : record.status = "success"
  last : fileName (components outside.platform (Text.trim record.targetPath).toList) = some name
  named : fileNamesEqual outside.platform name record.fileName.toList = true
  normal : normalizeAbsolutePath outside (Text.trim record.targetPath).toList = some path
  inside : ∃ text configured directory, configuredLocalBackupDirectory settings = some text ∧
    normalizeAbsolutePath outside text.toList = some configured ∧ parent path = some directory ∧
    pathsEqual outside.platform directory configured = true

/-- **Another name is hidden behind the one that is checked**: what stands behind the last
separator of the last component, in the configured directory, is no name of a backup. -/
def Hidden (outside : Outside) (settings : BackupSettings) (record : BackupRecord) : Prop :=
  ∃ name path, LocatedInside outside settings record name path ∧ isBackupFile name = true ∧
    isBackupFile record.fileName.toList = true ∧
    isBackupFile (lastPart outside.platform name) = false

/-- **The file lies elsewhere**: the file name of a WebDAV or S3 record is of the form of a backup
and holds a separator, and the location is the one that is built from it. -/
structure Misplaced (outside : Outside) (settings : BackupSettings) (record : BackupRecord) :
    Prop where
  status : record.status = "success"
  backup : isBackupFile record.fileName.toList = true
  place :
    (record.targetKind = "webdav" ∧ (∃ c ∈ record.fileName.toList, c ∈ addressSeparators) ∧
      ∃ target, AtAddress outside settings.cloud.webdav record target) ∨
    (record.targetKind = "s3" ∧ (∃ c ∈ record.fileName.toList, c ∈ keySeparators) ∧
      ∃ key, AtKey settings.cloud.s3 record key)

/-! ### The name of a backup -/

variable {outside : Outside} {settings : BackupSettings} {record : BackupRecord} {name : List Char}

theorem end_of_isBackupFile (h : isBackupFile name = true) : ∃ before ending,
    name = before ++ ending ∧ 4 ≤ ending.length ∧
      ∀ c ∈ ending, c ≠ '/' ∧ c ≠ '\\' := by
  obtain ⟨suffix, hmem, hsuffix⟩ := List.any_eq_true.mp (Bool.and_eq_true_iff.mp h).2
  obtain ⟨before, heq⟩ := of_decide_eq_true hsuffix
  have hends : ∀ suffix ∈ backupEnds, 4 ≤ suffix.length ∧ ∀ c ∈ suffix, c ≠ '/' ∧ c ≠ '\\' := by
    decide
  obtain ⟨hlength, hplain⟩ := hends suffix hmem
  obtain ⟨before', ending, rfl, -, rfl⟩ := List.map_eq_append_iff.mp heq.symm
  rw [List.length_map] at hlength
  refine ⟨before', ending, rfl, hlength, fun c hc => ?_⟩
  have hlower := hplain _ (List.mem_map_of_mem hc)
  constructor
  · rintro rfl
    exact hlower.1 (by decide)
  · rintro rfl
    exact hlower.2 (by decide)

theorem start_of_isBackupFile (h : isBackupFile name = true) : ∃ a b rest,
    name = a :: b :: rest ∧ a ≠ '/' ∧ a ≠ '\\' ∧ b ≠ ':' := by
  obtain ⟨rest, heq⟩ := of_decide_eq_true (Bool.and_eq_true_iff.mp h).1
  have hstart : backupStart = 'h' :: 'e' :: backupStart.drop 2 := by decide
  rw [hstart] at heq
  match name with
  | [] => cases heq
  | [a] => cases (List.cons.inj heq).2
  | a :: b :: name =>
    have ha : 'h' = a.toLower := (List.cons.inj heq).1
    have hb : 'e' = b.toLower := (List.cons.inj (List.cons.inj heq).2).1
    refine ⟨a, b, name, rfl, ?_, ?_, ?_⟩
    · rintro rfl
      exact absurd ha (by decide)
    · rintro rfl
      exact absurd ha (by decide)
    · rintro rfl
      exact absurd hb (by decide)

theorem volume_of_isBackupFile (platform : Platform) (h : isBackupFile name = true) :
    volume platform name = none := by
  obtain ⟨a, b, rest, rfl, hslash, hback, hcolon⟩ := start_of_isBackupFile h
  cases platform with
  | unix => rfl
  | windows =>
    have hdouble : ¬ ['\\', '\\'] <+: ((a :: b :: rest).take 8).map
        fun c => if c = '/' then '\\' else c := by
      intro hprefix
      have hhead : '\\' = if a = '/' then '\\' else a := (List.cons_prefix_cons.mp hprefix).1
      rw [if_neg hslash] at hhead
      exact hback hhead.symm
    have hdrive : isDrive (a :: b :: rest) = false := by
      unfold isDrive
      split
      · rename_i heq
        exact absurd (List.cons.inj (List.cons.inj heq).2).1 hcolon
      · rfl
    rw [volume, parseVolume]
    rw [if_neg hdouble, hdrive, if_neg Bool.false_ne_true]

/-- **The last component that is a name of a backup ends in a name.** -/
theorem components_of_isBackupFile (platform : Platform) (h : isBackupFile name = true) :
    ∃ init, components platform name = init ++ [Component.normal (lastPart platform name)] := by
  have hvolume := volume_of_isBackupFile platform h
  refine components_last hvolume ?_ ?_
  · obtain ⟨a, b, rest, rfl, hslash, hback, -⟩ := start_of_isBackupFile h
    rw [hasPhysicalRoot, behindVolume, hvolume]
    cases platform with
    | unix => simp [isSeparator, hslash]
    | windows => simp [isSeparator, hslash, hback]
  · obtain ⟨before, ending, rfl, hlength, hplain⟩ := end_of_isBackupFile h
    have hinside : ∀ c ∈ ending.reverse, (!isSeparator platform false c) = true := by
      intro c hc
      obtain ⟨hslash, hback⟩ := hplain c (List.mem_reverse.mp hc)
      cases platform with
      | unix => simp [isSeparator, hslash]
      | windows => simp [isSeparator, hslash, hback]
    have hlong : 4 ≤ (lastPart platform (before ++ ending)).length := by
      rw [lastPart, List.reverse_append, List.takeWhile_append_of_pos hinside, List.length_reverse,
        List.length_append, List.length_reverse]
      omega
    generalize lastPart platform (before ++ ending) = last at hlong
    have hne : last ≠ [] ∧ last ≠ ['.'] ∧ last ≠ ['.', '.'] := by
      refine ⟨?_, ?_, ?_⟩
      all_goals
        rintro rfl
        exact absurd hlong (by decide)
    rw [part, if_neg hne.1, if_neg hne.2.1, if_neg hne.2.2]

/-- **The name of the file that a location leads to**: what stands behind the last separator of
its last component, when that is a name of a backup. -/
theorem fileName_normalizeAbsolutePath {target : List Char} {path : List Component}
    (hlast : fileName (components outside.platform target) = some name)
    (hname : isBackupFile name = true) (hpath : normalizeAbsolutePath outside target = some path) :
    ∃ directory, path = directory ++ [Component.normal (lastPart outside.platform name)] := by
  obtain ⟨init, hinit⟩ := fileName_eq_some.mp hlast
  obtain ⟨source, hsource, hnormal⟩ := Option.bind_eq_some_iff.mp hpath
  have hends : ∃ before, source = before ++ [Component.normal name] := by
    unfold absolutePath at hsource
    split_ifs at hsource
    · obtain rfl := Option.some.inj hsource
      exact ⟨init, hinit⟩
    · obtain ⟨directory, -, rfl⟩ := Option.map_eq_some_iff.mp hsource
      exact push_concat _ hinit
  obtain ⟨before, rfl⟩ := hends
  obtain ⟨pushed, rfl⟩ := normalize_concat hnormal
  obtain ⟨parts, hparts⟩ := components_of_isBackupFile outside.platform hname
  exact push_concat pushed hparts

/-! ### What a cleanup deletes -/

/-- The file of a local record is deleted when its location leads into the configured directory. -/
theorem localBackupDeletePath_iff {path : List Component} :
    localBackupDeletePath outside settings record = some path ↔
      ∃ name, LocatedInside outside settings record name path ∧ isBackupFile name = true := by
  unfold localBackupDeletePath
  simp only [Option.bind_eq_bind, Option.bind_eq_some_iff, Option.guard_eq_some', Option.pure_def,
    Option.some.injEq, exists_and_left, exists_const]
  constructor
  · rintro ⟨⟨hkind, hstatus⟩, text, htext, name, hlast, ⟨hname, hnamed⟩, configured, hconfigured,
      target, htarget, directory, hdirectory, hequal, rfl⟩
    exact ⟨name, ⟨hkind, hstatus, hlast, hnamed, htarget,
      text, configured, directory, htext, hconfigured, hdirectory, hequal⟩, hname⟩
  · rintro ⟨name, ⟨hkind, hstatus, hlast, hnamed, htarget,
      text, configured, directory, htext, hconfigured, hdirectory, hequal⟩, hname⟩
    exact ⟨⟨hkind, hstatus⟩, text, htext, name, hlast, ⟨hname, hnamed⟩, configured, hconfigured,
      path, htarget, directory, hdirectory, hequal, rfl⟩

/-- The address of a WebDAV record is deleted when it is the one that the configuration gives. -/
theorem webdavBackupDeleteTarget_iff {config : WebdavBackupConfig} {target : List Char} :
    webdavBackupDeleteTarget outside config record = some target ↔
      AtAddress outside config record target := by
  unfold webdavBackupDeleteTarget AtAddress
  simp only [Option.bind_eq_bind, Option.bind_eq_some_iff, Option.guard_eq_some', Option.pure_def,
    Option.some.injEq, exists_and_left, exists_const]
  constructor
  · rintro ⟨joined, hjoined, expected, hexpected, url, hurl, hequal, rfl⟩
    refine ⟨joined, ?_, expected, hexpected, url, hurl, hequal, rfl⟩
    cases hjoin : joinRemoteUrl config.endpoint config.remotePath record.fileName.toList with
    | error => rw [hjoin] at hjoined; cases hjoined
    | ok => rw [hjoin] at hjoined; rw [Option.some.inj hjoined]
  · rintro ⟨joined, hjoined, expected, hexpected, url, hurl, hequal, rfl⟩
    exact ⟨joined, by rw [hjoined]; rfl, expected, hexpected, url, hurl, hequal, rfl⟩

/-- The key of an S3 record is deleted when it is the one that the configuration gives. -/
theorem s3BackupDeleteKey_iff {config : S3BackupConfig} {key : List Char} :
    s3BackupDeleteKey config record = some key ↔ AtKey config record key := by
  have hstart : ∀ found : List Char, s3KeyFromTarget config (Text.trim record.targetPath).toList =
      .ok found ↔ (Text.trim record.targetPath).toList = bucketLocation config ++ found := by
    intro found
    constructor
    · intro hkey
      obtain ⟨_, hstart, hdrop⟩ := bind_ok hkey
      obtain rfl := Except.ok.inj hdrop
      obtain ⟨rest, hrest⟩ := not_not.mp (refuse_ok hstart)
      rw [← hrest, List.drop_left]
    · intro htarget
      rw [htarget, s3KeyFromTarget, refuse, if_neg (not_not.mpr (List.prefix_append _ _))]
      show Except.ok _ = Except.ok _
      rw [List.drop_left]
  unfold s3BackupDeleteKey AtKey
  simp only [Option.bind_eq_bind, Option.bind_eq_some_iff, Option.guard_eq_some', Option.pure_def,
    Option.some.injEq, exists_and_left, exists_const]
  constructor
  · rintro ⟨found, hfound, hequal, rfl⟩
    refine ⟨hequal, (hstart found).mp ?_⟩
    cases hkey : s3KeyFromTarget config (Text.trim record.targetPath).toList with
    | error => rw [hkey] at hfound; cases hfound
    | ok key => rw [hkey] at hfound; rw [Option.some.inj hfound]
  · rintro ⟨hequal, htarget⟩
    exact ⟨key, by rw [(hstart key).mpr htarget]; rfl, hequal, rfl⟩

/-- A name with a separator is not one segment, and every other is. -/
theorem segmentName_or {separators fileName : List Char} (h : isBackupFile fileName = true) :
    SegmentName separators fileName ∨ ∃ c ∈ fileName, c ∈ separators := by
  by_cases hplain : ∀ c ∈ fileName, c ∉ separators
  · exact .inl ⟨h, hplain⟩
  · simp only [not_forall, not_not] at hplain
    obtain ⟨c, hc, hmem⟩ := hplain
    exact .inr ⟨c, hc, hmem⟩

/-- A record whose file lies elsewhere makes a cleanup delete it. -/
theorem Misplaced.deleted (h : Misplaced outside settings record) :
    ∃ target, backupCleanupTarget outside settings record = some target ∧
      ¬ OwnBackup outside settings record target := by
  have hchecked : ¬ (record.status ≠ "success" ∨ ¬ isBackupFile record.fileName.toList = true) := by
    simp [h.status, h.backup]
  rcases h.place with ⟨hkind, ⟨c, hc, hmem⟩, target, hat⟩ | ⟨hkind, ⟨c, hc, hmem⟩, key, hat⟩
  · refine ⟨.webdav settings.cloud.webdav target, ?_, fun hown => hown.2.1.segment c hc hmem⟩
    rw [backupCleanupTarget, if_neg hchecked, if_neg (by rw [hkind]; decide), if_pos hkind,
      webdavBackupDeleteTarget_iff.mpr hat]
    rfl
  · refine ⟨.s3 settings.cloud.s3 key, ?_, fun hown => hown.2.1.segment c hc hmem⟩
    rw [backupCleanupTarget, if_neg hchecked, if_neg (by rw [hkind]; decide),
      if_neg (by rw [hkind]; decide), if_pos hkind, s3BackupDeleteKey_iff.mpr hat]
    rfl

/-- **What a cleanup deletes.**  Of every record, whatever its file name and its location are, it
deletes nothing but a backup of the program's own, exactly when no other name is hidden in the
location and the file does not lie elsewhere. -/
theorem backupCleanupTarget_own_iff (outside : Outside) (settings : BackupSettings)
    (record : BackupRecord) :
    (∀ target, backupCleanupTarget outside settings record = some target →
      OwnBackup outside settings record target) ↔
      ¬ Hidden outside settings record ∧ ¬ Misplaced outside settings record := by
  constructor
  · intro hall
    refine ⟨?_, fun hmisplaced => ?_⟩
    case refine_2 =>
      obtain ⟨target, htarget, hnot⟩ := hmisplaced.deleted
      exact hnot (hall target htarget)
    rintro ⟨name, path, hlocated, hname, hfile, hlast⟩
    have hdelete := localBackupDeletePath_iff.mpr ⟨name, hlocated, hname⟩
    have htarget : backupCleanupTarget outside settings record = some (.local path) := by
      rw [backupCleanupTarget, if_neg (by simp [hlocated.status, hfile]), if_pos hlocated.kind,
        hdelete]
      rfl
    obtain ⟨_, _, directory, other, _, _, hpath, _, hother⟩ := hall _ htarget
    obtain ⟨directory', hpath'⟩ :=
      fileName_normalizeAbsolutePath hlocated.last hname hlocated.normal
    have hsame := List.append_inj_right' (hpath.symm.trans hpath') rfl
    obtain rfl : other = lastPart outside.platform name :=
      Component.normal.inj (List.cons.inj hsame).1
    rw [hlast] at hother
    cases hother
  · rintro ⟨hnot, hplaced⟩ target htarget
    unfold backupCleanupTarget at htarget
    split_ifs at htarget with hrefused _ hwebdav hs3
    · obtain ⟨path, hpath, rfl⟩ := Option.map_eq_some_iff.mp htarget
      obtain ⟨name, hlocated, hname⟩ := localBackupDeletePath_iff.mp hpath
      obtain ⟨init, rfl⟩ := fileName_normalizeAbsolutePath hlocated.last hname hlocated.normal
      obtain ⟨text, configured, directory, htext, hconfigured, hparent, hequal⟩ := hlocated.inside
      rw [parent_concat] at hparent
      obtain rfl := Option.some.inj hparent
      refine ⟨text, configured, init, _, htext, hconfigured, rfl, hequal, ?_⟩
      by_contra hother
      exact hnot ⟨name, _, hlocated, hname, not_not.mp (not_or.mp hrefused).2,
        Bool.not_eq_true _ ▸ hother⟩
    · obtain ⟨found, hfound, rfl⟩ := Option.map_eq_some_iff.mp htarget
      obtain ⟨hstatus, hbackup⟩ := not_or.mp hrefused
      have hat := webdavBackupDeleteTarget_iff.mp hfound
      rcases segmentName_or (not_not.mp hbackup) with hname | hseparator
      · exact ⟨rfl, hname, hat⟩
      · exact absurd ⟨not_not.mp hstatus, not_not.mp hbackup, .inl ⟨hwebdav, hseparator, _, hat⟩⟩
          hplaced
    · obtain ⟨key, hkey, rfl⟩ := Option.map_eq_some_iff.mp htarget
      obtain ⟨hstatus, hbackup⟩ := not_or.mp hrefused
      have hat := s3BackupDeleteKey_iff.mp hkey
      rcases segmentName_or (not_not.mp hbackup) with hname | hseparator
      · exact ⟨rfl, hname, hat⟩
      · exact absurd ⟨not_not.mp hstatus, not_not.mp hbackup, .inr ⟨hs3, hseparator, _, hat⟩⟩
          hplaced

/-- **Where a name can be hidden**: only in a verbatim path on Windows. -/
theorem hidden_verbatim (h : Hidden outside settings record) :
    outside.platform = .windows ∧
      (volume .windows (Text.trim record.targetPath).toList).any Volume.verbatim = true := by
  obtain ⟨name, path, hlocated, hname, -, hlast⟩ := h
  obtain ⟨init, hinit⟩ := fileName_eq_some.mp hlocated.last
  have hinside := isSeparator_of_mem_components (hinit ▸ List.mem_append_right _ List.mem_cons_self)
  by_contra hnot
  have hplain : (volume outside.platform (Text.trim record.targetPath).toList).any Volume.verbatim
      = false := by
    cases hplatform : outside.platform with
    | unix => rfl
    | windows => exact Bool.not_eq_true _ ▸ fun hverbatim => hnot ⟨hplatform, hverbatim⟩
  rw [hplain] at hinside
  rw [lastPart_eq_self hinside, hname] at hlast
  cases hlast

/-- The path of an address without its dot segments. -/
def resolveDots (path : List Char) : List Char :=
  (((path.splitOn '/').drop 1).foldl (fun before segment =>
    if segment = ['.', '.'] then before.dropLast
    else if segment = ['.'] then before
    else before ++ [segment]) []).flatMap ('/' :: ·)

/-- What the crate makes of the addresses of one host, by their paths. -/
def davUrls : UrlCrate where
  Url := List Char
  parse text :=
    if "https://dav.example".toList <+: text then
      some (resolveDots (text.drop "https://dav.example".length))
    else none
  scheme _ := "https".toList
  hostStr _ := some "dav.example".toList
  portOrKnownDefault _ := some 443
  username _ := []
  password _ := none
  path path := path
  query _ := none
  fragment _ := none
  toString path := "https://dav.example".toList ++ path

/-- A program on Windows. -/
def onWindows : Outside where
  platform := .windows
  currentDir := some "C:\\".toList
  urls := davUrls

/-- A location in the configured directory, with another name behind its slashes. -/
def hiddenRecord : BackupRecord :=
  { id := "r", fileName := "helm-backup-/../x.zip", targetKind := "local",
    targetPath := "\\\\?\\C:\\b\\helm-backup-/../x.zip", size := 0, status := "success",
    error := none, createdAt := "t" }

/-- A location outside of the configured base, from which the file name leads to it. -/
def misplacedRecord : BackupRecord :=
  { id := "r", fileName := "helm-backup-/../../x.zip", targetKind := "webdav",
    targetPath := "https://dav.example/x.zip", size := 0, status := "success", error := none,
    createdAt := "t" }

/-- The configured directory, and a base on the host. -/
def exampleSettings : BackupSettings :=
  { localDirectory := some "\\\\?\\C:\\b"
    cloud := { webdav := { endpoint := "https://dav.example", remotePath := "backups" } } }

/-- **Files of others are deleted**: one with another name in the configured directory, and one
outside of the configured base. -/
theorem other_files_deleted :
    (∃ target, backupCleanupTarget onWindows exampleSettings hiddenRecord = some target ∧
      ¬ OwnBackup onWindows exampleSettings hiddenRecord target) ∧
    backupCleanupTarget onWindows exampleSettings misplacedRecord =
      some (.webdav exampleSettings.cloud.webdav "https://dav.example/x.zip".toList) ∧
    ¬ OwnBackup onWindows exampleSettings misplacedRecord
      (.webdav exampleSettings.cloud.webdav "https://dav.example/x.zip".toList) := by
  refine ⟨⟨.local [.volume "\\\\?\\C:".toList, .rootDir, .normal ['b'], .normal "x.zip".toList],
    by decide, ?_⟩, by decide, ?_⟩
  · rintro ⟨_, _, directory, name, -, -, hpath, -, hname⟩
    have hlast := fileName_eq_some.mpr ⟨directory, hpath⟩
    obtain rfl : "x.zip".toList = name := Option.some.inj hlast
    exact absurd hname (by decide)
  · intro hown
    exact hown.2.1.segment '/' (by decide) (by decide)

end BackupCleanup
end Vault
end HelmSsh
