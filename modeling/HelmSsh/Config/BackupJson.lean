/-
# The backup settings as JSON

How `serde` writes and reads `BackupSettings` (`src-tauri/src/config.rs`), and what a merge patch
makes of them.  Every field has a default, so that a struct is read from an object with any of its
fields, or from an array with the first of them, and what is not known is passed over.

A patch is applied to the JSON of the settings and the result is read again (`merge_json_patch` in
`src-tauri/src/api_server/handlers_admin.rs`).  `SettingsChange` says what that is without the
detour: a field that the patch does not have stays, a field that it has as `null` gets its default,
a struct is patched field by field, and anything else is read from the patch.

* `BackupSettings.fromValue_mergePatch` — the detour through JSON makes the changes of the patch,
  and no others.
* `BackupSettings.fromValue_toValue` — the settings are read as they were written.
* `Change.again` — a change that was made is made again by the same patch.
-/

import HelmSsh.JsonMerge
import HelmSsh.Config.Data
import Mathlib.Algebra.GroupWithZero.Nat

namespace HelmSsh
namespace Config

open JsonValue

/-! ### Reading and writing -/

/-- The fields of a struct by their place and their name, as a derived `Deserialize` finds them in a
value: the members of an object, or the elements of an array that has at most as many. -/
def fieldsOf (count : ℕ) : JsonValue → Option (ℕ → String → Option JsonValue)
  | .object members => some fun _ key => members.lookup key
  | .array elements =>
    if elements.length ≤ count then some fun place _ => elements[place]? else none
  | _ => none

/-- A field with its default. -/
def readField {α : Type*} (read : JsonValue → Option α) (default : α) :
    Option JsonValue → Option α
  | none => some default
  | some value => read value

/-- A `String`. -/
def readString : JsonValue → Option String
  | .string value => some value
  | _ => none

/-- An `Option<String>`. -/
def readOptionString : JsonValue → Option (Option String)
  | .null => some none
  | .string value => some (some value)
  | _ => none

/-- A `bool`. -/
def readBool : JsonValue → Option Bool
  | .bool value => some value
  | _ => none

/-- A `u16`. -/
def readU16 : JsonValue → Option UInt16
  | .number (.natural n) => if n < 2 ^ 16 then some (UInt16.ofNat n) else none
  | _ => none

/-- A `u16`, written. -/
def writeU16 (value : UInt16) : JsonValue :=
  .number (.natural value.toNat)

/-- An `Option<String>`, written. -/
def writeOptionString : Option String → JsonValue
  | none => .null
  | some value => .string value

/-- `Deserialize` of `WebdavBackupConfig`. -/
def WebdavBackupConfig.fromValue (value : JsonValue) : Option WebdavBackupConfig := do
  let field ← fieldsOf 4 value
  let endpoint ← readField readString "" (field 0 "endpoint")
  let username ← readField readString "" (field 1 "username")
  let password ← readField readString "" (field 2 "password")
  let remotePath ← readField readString "" (field 3 "remotePath")
  return { endpoint, username, password, remotePath }

/-- `Deserialize` of `S3BackupConfig`. -/
def S3BackupConfig.fromValue (value : JsonValue) : Option S3BackupConfig := do
  let field ← fieldsOf 7 value
  let endpoint ← readField readString "" (field 0 "endpoint")
  let region ← readField readString "us-east-1" (field 1 "region")
  let bucket ← readField readString "" (field 2 "bucket")
  let accessKeyId ← readField readString "" (field 3 "accessKeyId")
  let secretAccessKey ← readField readString "" (field 4 "secretAccessKey")
  let keyPrefix ← readField readString "" (field 5 "prefix")
  let pathStyle ← readField readBool false (field 6 "pathStyle")
  return { endpoint, region, bucket, accessKeyId, secretAccessKey, keyPrefix, pathStyle }

/-- `Deserialize` of `CloudBackupSettings`. -/
def CloudBackupSettings.fromValue (value : JsonValue) : Option CloudBackupSettings := do
  let field ← fieldsOf 5 value
  let enabled ← readField readBool false (field 0 "enabled")
  let autoEnabled ← readField readBool false (field 1 "autoEnabled")
  let kind ← readField readString "webdav" (field 2 "kind")
  let webdav ← readField WebdavBackupConfig.fromValue {} (field 3 "webdav")
  let s3 ← readField S3BackupConfig.fromValue {} (field 4 "s3")
  return { enabled, autoEnabled, kind, webdav, s3 }

/-- `Deserialize` of `BackupSettings`. -/
def BackupSettings.fromValue (value : JsonValue) : Option BackupSettings := do
  let field ← fieldsOf 6 value
  let localDirectory ← readField readOptionString none (field 0 "localDirectory")
  let autoEnabled ← readField readBool false (field 1 "autoEnabled")
  let frequency ← readField readString "daily" (field 2 "frequency")
  let retentionCount ← readField readU16 10 (field 3 "retentionCount")
  let retentionDays ← readField readU16 30 (field 4 "retentionDays")
  let cloud ← readField CloudBackupSettings.fromValue {} (field 5 "cloud")
  return { localDirectory, autoEnabled, frequency, retentionCount, retentionDays, cloud }

/-- `Serialize` of `WebdavBackupConfig`. -/
def WebdavBackupConfig.members (config : WebdavBackupConfig) : Members :=
  [("endpoint", .string config.endpoint), ("username", .string config.username),
    ("password", .string config.password), ("remotePath", .string config.remotePath)]

/-- `Serialize` of `S3BackupConfig`. -/
def S3BackupConfig.members (config : S3BackupConfig) : Members :=
  [("endpoint", .string config.endpoint), ("region", .string config.region),
    ("bucket", .string config.bucket), ("accessKeyId", .string config.accessKeyId),
    ("secretAccessKey", .string config.secretAccessKey), ("prefix", .string config.keyPrefix),
    ("pathStyle", .bool config.pathStyle)]

/-- `Serialize` of `CloudBackupSettings`. -/
def CloudBackupSettings.members (settings : CloudBackupSettings) : Members :=
  [("enabled", .bool settings.enabled), ("autoEnabled", .bool settings.autoEnabled),
    ("kind", .string settings.kind), ("webdav", .object settings.webdav.members),
    ("s3", .object settings.s3.members)]

/-- `Serialize` of `BackupSettings`. -/
def BackupSettings.members (settings : BackupSettings) : Members :=
  [("localDirectory", writeOptionString settings.localDirectory),
    ("autoEnabled", .bool settings.autoEnabled), ("frequency", .string settings.frequency),
    ("retentionCount", writeU16 settings.retentionCount),
    ("retentionDays", writeU16 settings.retentionDays),
    ("cloud", .object settings.cloud.members)]

/-- The settings as JSON. -/
def BackupSettings.toValue (settings : BackupSettings) : JsonValue :=
  .object settings.members

theorem readU16_writeU16 (value : UInt16) : readU16 (writeU16 value) = some value := by
  rw [writeU16, readU16, if_pos value.toNat_lt, UInt16.ofNat_toNat]

theorem readOptionString_writeOptionString (value : Option String) :
    readOptionString (writeOptionString value) = some value := by
  cases value <;> rfl

/-! ### The changes of a patch -/

section Changes

variable {α : Type*} {read : JsonValue → Option α} {d x y z : α}

/-- What a patch makes of a field, by the member that it has for it. -/
def Change (read : JsonValue → Option α) (default x : α) : Option JsonValue → α → Prop
  | none, y => y = x
  | some .null, y => y = default
  | some value, y => read value = some y

/-- What a patch makes of a struct, by the member that it has for it: a patch of its own is made of
the fields. -/
def StructChange (read : JsonValue → Option α) (default : α) (fields : Members → α → α → Prop)
    (x : α) : Option JsonValue → α → Prop
  | none, y => y = x
  | some .null, y => y = default
  | some (.object patch), y => fields patch x y
  | some value, y => read value = some y

/-- The fields of `WebdavBackupConfig` behind a patch. -/
structure WebdavChange (patch : Members) (x y : WebdavBackupConfig) : Prop where
  endpoint : Change readString "" x.endpoint (patch.lookup "endpoint") y.endpoint
  username : Change readString "" x.username (patch.lookup "username") y.username
  password : Change readString "" x.password (patch.lookup "password") y.password
  remotePath : Change readString "" x.remotePath (patch.lookup "remotePath") y.remotePath

/-- The fields of `S3BackupConfig` behind a patch. -/
structure S3Change (patch : Members) (x y : S3BackupConfig) : Prop where
  endpoint : Change readString "" x.endpoint (patch.lookup "endpoint") y.endpoint
  region : Change readString "us-east-1" x.region (patch.lookup "region") y.region
  bucket : Change readString "" x.bucket (patch.lookup "bucket") y.bucket
  accessKeyId : Change readString "" x.accessKeyId (patch.lookup "accessKeyId") y.accessKeyId
  secretAccessKey :
    Change readString "" x.secretAccessKey (patch.lookup "secretAccessKey") y.secretAccessKey
  keyPrefix : Change readString "" x.keyPrefix (patch.lookup "prefix") y.keyPrefix
  pathStyle : Change readBool false x.pathStyle (patch.lookup "pathStyle") y.pathStyle

/-- The fields of `CloudBackupSettings` behind a patch. -/
structure CloudChange (patch : Members) (x y : CloudBackupSettings) : Prop where
  enabled : Change readBool false x.enabled (patch.lookup "enabled") y.enabled
  autoEnabled : Change readBool false x.autoEnabled (patch.lookup "autoEnabled") y.autoEnabled
  kind : Change readString "webdav" x.kind (patch.lookup "kind") y.kind
  webdav : StructChange WebdavBackupConfig.fromValue {} WebdavChange x.webdav
    (patch.lookup "webdav") y.webdav
  s3 : StructChange S3BackupConfig.fromValue {} S3Change x.s3 (patch.lookup "s3") y.s3

/-- **The settings behind a patch.** -/
structure SettingsChange (patch : Members) (x y : BackupSettings) : Prop where
  localDirectory :
    Change readOptionString none x.localDirectory (patch.lookup "localDirectory") y.localDirectory
  autoEnabled : Change readBool false x.autoEnabled (patch.lookup "autoEnabled") y.autoEnabled
  frequency : Change readString "daily" x.frequency (patch.lookup "frequency") y.frequency
  retentionCount :
    Change readU16 10 x.retentionCount (patch.lookup "retentionCount") y.retentionCount
  retentionDays : Change readU16 30 x.retentionDays (patch.lookup "retentionDays") y.retentionDays
  cloud : StructChange CloudBackupSettings.fromValue {} CloudChange x.cloud (patch.lookup "cloud")
    y.cloud

theorem Change.again {member : Option JsonValue} (h : Change read d x member y)
    (hz : y = x → z = y) : Change read d z member y := by
  cases member with
  | none => exact (hz h).symm
  | some value => cases value <;> exact h

theorem StructChange.again {fields : Members → α → α → Prop} {member : Option JsonValue}
    (h : StructChange read d fields x member y) (hz : y = x → z = y)
    (hfields : ∀ patch, fields patch x y → fields patch z y) :
    StructChange read d fields z member y := by
  cases member with
  | none => exact (hz h).symm
  | some value =>
    cases value with
    | object patch => exact hfields patch h
    | _ => exact h

theorem readField_mergeMembers {patch : Members} (hpatch : (object patch).keysDistinct = true)
    {target : Members} {key : String} {written : JsonValue}
    (htarget : target.lookup key = some written) (hwritten : read written = some x)
    (hobject : ∀ members, read (object members) = none) :
    readField read d ((mergeMembers target patch).lookup key) = some y ↔
      Change read d x (patch.lookup key) y := by
  rw [lookup_mergeMembers (nodup_of_keysDistinct hpatch), htarget]
  cases hvalue : patch.lookup key with
  | none =>
    dsimp only
    rw [readField, hwritten, Option.some_inj, Change]
    exact eq_comm
  | some value =>
    cases value with
    | null =>
      change some d = some y ↔ y = d
      rw [Option.some_inj]
      exact eq_comm
    | object members =>
      change read (object _) = some y ↔ read (object members) = some y
      rw [hobject, hobject]
    | bool value => exact Iff.rfl
    | number value => exact Iff.rfl
    | string value => exact Iff.rfl
    | array elements => exact Iff.rfl

theorem readField_mergeStruct {fields : Members → α → α → Prop} {patch : Members}
    (hpatch : (object patch).keysDistinct = true) {target written : Members} {key : String}
    (htarget : target.lookup key = some (object written))
      (hwritten : read (object written) = some x)
    (hfields : ∀ members, (object members).keysDistinct = true →
      (read (object (mergeMembers written members)) = some y ↔ fields members x y)) :
    readField read d ((mergeMembers target patch).lookup key) = some y ↔
      StructChange read d fields x (patch.lookup key) y := by
  rw [lookup_mergeMembers (nodup_of_keysDistinct hpatch), htarget]
  cases hvalue : patch.lookup key with
  | none =>
    dsimp only
    rw [readField, hwritten, Option.some_inj, StructChange]
    exact eq_comm
  | some value =>
    cases value with
    | null =>
      change some d = some y ↔ y = d
      rw [Option.some_inj]
      exact eq_comm
    | object members => exact hfields members (keysDistinct_of_lookup hpatch hvalue)
    | bool value => exact Iff.rfl
    | number value => exact Iff.rfl
    | string value => exact Iff.rfl
    | array elements => exact Iff.rfl

end Changes

/-! ### Reading what was patched -/

theorem keysDistinct_nil : (object []).keysDistinct = true := rfl

section Patched

variable {patch target : Members} {key : String} (hpatch : (object patch).keysDistinct = true)
include hpatch

theorem readString_merge {default x y : String} (h : target.lookup key = some (.string x)) :
    readField readString default ((mergeMembers target patch).lookup key) = some y ↔
      Change readString default x (patch.lookup key) y :=
  readField_mergeMembers hpatch h rfl fun _ => rfl

theorem readBool_merge {default x y : Bool} (h : target.lookup key = some (.bool x)) :
    readField readBool default ((mergeMembers target patch).lookup key) = some y ↔
      Change readBool default x (patch.lookup key) y :=
  readField_mergeMembers hpatch h rfl fun _ => rfl

theorem readU16_merge {default x y : UInt16} (h : target.lookup key = some (writeU16 x)) :
    readField readU16 default ((mergeMembers target patch).lookup key) = some y ↔
      Change readU16 default x (patch.lookup key) y :=
  readField_mergeMembers hpatch h (readU16_writeU16 x) fun _ => rfl

/-- A patched `WebdavBackupConfig`, read again. -/
theorem WebdavBackupConfig.fromValue_patched (x y : WebdavBackupConfig) :
    fromValue (object (mergeMembers x.members patch)) = some y ↔ WebdavChange patch x y := by
  simp only [fromValue, fieldsOf, Option.bind_eq_bind, Option.bind_some, Option.bind_eq_some_iff,
    Option.pure_def, Option.some_inj]
  constructor
  · rintro ⟨_, h1, _, h2, _, h3, _, h4, rfl⟩
    exact ⟨(readString_merge hpatch rfl).mp h1,
      (readString_merge hpatch rfl).mp h2,
      (readString_merge hpatch rfl).mp h3,
      (readString_merge hpatch rfl).mp h4⟩
  · intro h
    exact ⟨_, (readString_merge hpatch rfl).mpr h.endpoint,
      _, (readString_merge hpatch rfl).mpr h.username,
      _, (readString_merge hpatch rfl).mpr h.password,
      _, (readString_merge hpatch rfl).mpr h.remotePath, rfl⟩

/-- A patched `S3BackupConfig`, read again. -/
theorem S3BackupConfig.fromValue_patched (x y : S3BackupConfig) :
    fromValue (object (mergeMembers x.members patch)) = some y ↔ S3Change patch x y := by
  simp only [fromValue, fieldsOf, Option.bind_eq_bind, Option.bind_some, Option.bind_eq_some_iff,
    Option.pure_def, Option.some_inj]
  constructor
  · rintro ⟨_, h1, _, h2, _, h3, _, h4, _, h5, _, h6, _, h7, rfl⟩
    exact ⟨(readString_merge hpatch rfl).mp h1,
      (readString_merge hpatch rfl).mp h2,
      (readString_merge hpatch rfl).mp h3,
      (readString_merge hpatch rfl).mp h4,
      (readString_merge hpatch rfl).mp h5,
      (readString_merge hpatch rfl).mp h6,
      (readBool_merge hpatch rfl).mp h7⟩
  · intro h
    exact ⟨_, (readString_merge hpatch rfl).mpr h.endpoint,
      _, (readString_merge hpatch rfl).mpr h.region,
      _, (readString_merge hpatch rfl).mpr h.bucket,
      _, (readString_merge hpatch rfl).mpr h.accessKeyId,
      _, (readString_merge hpatch rfl).mpr h.secretAccessKey,
      _, (readString_merge hpatch rfl).mpr h.keyPrefix,
      _, (readBool_merge hpatch rfl).mpr h.pathStyle, rfl⟩

omit hpatch in
theorem WebdavBackupConfig.fromValue_members (x : WebdavBackupConfig) :
    fromValue (object x.members) = some x :=
  (fromValue_patched keysDistinct_nil x x).mpr ⟨rfl, rfl, rfl, rfl⟩

omit hpatch in
theorem S3BackupConfig.fromValue_members (x : S3BackupConfig) :
    fromValue (object x.members) = some x :=
  (fromValue_patched keysDistinct_nil x x).mpr ⟨rfl, rfl, rfl, rfl, rfl, rfl, rfl⟩

/-- Patched `CloudBackupSettings`, read again. -/
theorem CloudBackupSettings.fromValue_patched (x y : CloudBackupSettings) :
    fromValue (object (mergeMembers x.members patch)) = some y ↔ CloudChange patch x y := by
  have hwebdav (y) := readField_mergeStruct (d := {}) (y := y) hpatch
    (show x.members.lookup "webdav" = some _ from rfl)
      (WebdavBackupConfig.fromValue_members x.webdav)
    fun _ h => WebdavBackupConfig.fromValue_patched h x.webdav y
  have hs3 (y) := readField_mergeStruct (d := {}) (y := y) hpatch
    (show x.members.lookup "s3" = some _ from rfl) (S3BackupConfig.fromValue_members x.s3)
    fun _ h => S3BackupConfig.fromValue_patched h x.s3 y
  simp only [fromValue, fieldsOf, Option.bind_eq_bind, Option.bind_some, Option.bind_eq_some_iff,
    Option.pure_def, Option.some_inj]
  constructor
  · rintro ⟨_, h1, _, h2, _, h3, _, h4, _, h5, rfl⟩
    exact ⟨(readBool_merge hpatch rfl).mp h1, (readBool_merge hpatch rfl).mp h2,
      (readString_merge hpatch rfl).mp h3, (hwebdav _).mp h4, (hs3 _).mp h5⟩
  · intro h
    exact ⟨_, (readBool_merge hpatch rfl).mpr h.enabled,
      _, (readBool_merge hpatch rfl).mpr h.autoEnabled, _, (readString_merge hpatch rfl).mpr h.kind,
      _, (hwebdav _).mpr h.webdav, _, (hs3 _).mpr h.s3, rfl⟩

omit hpatch in
theorem CloudBackupSettings.fromValue_members (x : CloudBackupSettings) :
    fromValue (object x.members) = some x :=
  (fromValue_patched keysDistinct_nil x x).mpr ⟨rfl, rfl, rfl, rfl, rfl⟩

/-- **The detour through JSON makes the changes of the patch**, and no others. -/
theorem BackupSettings.fromValue_mergePatch (x y : BackupSettings) :
    fromValue (mergePatch (some x.toValue) (object patch)) = some y ↔ SettingsChange patch x y := by
  have hdirectory (y) := readField_mergeMembers (d := none) (y := y) hpatch
    (show x.members.lookup "localDirectory" = some _ from rfl)
    (readOptionString_writeOptionString x.localDirectory) fun _ => rfl
  have hcloud (y) := readField_mergeStruct (d := {}) (y := y) hpatch
    (show x.members.lookup "cloud" = some _ from rfl)
      (CloudBackupSettings.fromValue_members x.cloud)
    fun _ h => CloudBackupSettings.fromValue_patched h x.cloud y
  simp only [mergePatch, toValue, membersOf, fromValue, fieldsOf, Option.bind_eq_bind,
    Option.bind_some, Option.bind_eq_some_iff, Option.pure_def, Option.some_inj]
  constructor
  · rintro ⟨_, h1, _, h2, _, h3, _, h4, _, h5, _, h6, rfl⟩
    exact ⟨(hdirectory _).mp h1, (readBool_merge hpatch rfl).mp h2,
      (readString_merge hpatch rfl).mp h3, (readU16_merge hpatch rfl).mp h4,
      (readU16_merge hpatch rfl).mp h5, (hcloud _).mp h6⟩
  · intro h
    exact ⟨_, (hdirectory _).mpr h.localDirectory, _, (readBool_merge hpatch rfl).mpr h.autoEnabled,
      _, (readString_merge hpatch rfl).mpr h.frequency,
      _, (readU16_merge hpatch rfl).mpr h.retentionCount,
      _, (readU16_merge hpatch rfl).mpr h.retentionDays, _, (hcloud _).mpr h.cloud, rfl⟩

omit hpatch in
/-- **The settings are read as they were written.** -/
theorem BackupSettings.fromValue_toValue (x : BackupSettings) : fromValue x.toValue = some x :=
  (fromValue_mergePatch keysDistinct_nil x x).mpr ⟨rfl, rfl, rfl, rfl, rfl, rfl⟩

end Patched

end Config
end HelmSsh
