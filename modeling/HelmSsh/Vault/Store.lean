/-
# The workspace store

`VaultStore` of `src-tauri/src/vault.rs`: the unlocked data and their session in memory,
the file they are kept in, and the revision.  The methods are effects on a `World`, the
store and the files; each takes the `Io` it has to do with, which says what it gets from
outside and which of its steps fail.

A method changes the data in one way only, `commit`: the new data are encrypted and
written, and then they take the place of the old ones.
-/

import HelmSsh.AtomicFile
import HelmSsh.Crypto
import HelmSsh.Vault.Workspace

namespace HelmSsh
namespace Vault

open Config Crypto

/-- `UnlockedVault`. -/
structure UnlockedVault where
  data : VaultData
  crypto : CryptoSession

/-- `VaultStore`. -/
structure VaultStore where
  path : String
  unlocked : Option UnlockedVault
  revision : UInt64

/-- `VaultStore::new`. -/
def VaultStore.new (path : String) : VaultStore :=
  { path := path, unlocked := none, revision := 0 }

/-- `ConfigSnapshot`. -/
structure ConfigSnapshot where
  data : VaultData
  revision : UInt64

/-- The store and the files. -/
structure World where
  store : VaultStore
  files : Files

/-- What a method has to do with outside of the store. -/
structure Io where
  env : Env
  rng : EncryptIo
  /-- The id in the name of the temporary file. -/
  tempId : String
  read : Option String := none
  remove : Option String := none
  write : WriteFaults := {}

/-- `AUTO_PASSWORD`. -/
def autoPassword : String := "helm-internal-auto-key-2024"

/-- `AutoOpenResult`. -/
inductive AutoOpenResult where
  | ready
  | needsMigration
  deriving DecidableEq

/-- A method of the store. -/
abbrev Method := Effect AppError World

variable (C : Crates)

/-! ### Parts of the methods -/

/-- `VaultStore::unlocked`. -/
def unlockedVault : Method UnlockedVault := do
  let store ← Effect.gets World.store
  Effect.ofExcept (store.unlocked.elim (.error .vaultLocked) .ok)

/-- The store has this data and session. -/
def setUnlocked (unlocked : UnlockedVault) : Method Unit :=
  Effect.modify fun world => { world with store := { world.store with unlocked := some unlocked } }

/-- `self.revision = self.revision.saturating_add(1)`. -/
def advanceRevision : Method Unit :=
  Effect.modify fun world =>
    { world with store := { world.store with revision := saturatingSucc world.store.revision } }

/-- `VaultStore::snapshot_for`. -/
def snapshotFor (data : VaultData) : Method ConfigSnapshot :=
  Effect.gets fun world => { data := data, revision := world.store.revision }

/-- `read_encrypted_bytes`. -/
def readEncryptedBytes (bytes : List UInt8) : AppResult EncryptedVault :=
  decodeVault C bytes

/-- The content of a file that is read whole. -/
def readFile (io : Io) (path : String) : Method (List UInt8) := do
  let content ← Effect.gets fun world => world.files path
  let content ← Effect.ofExcept (content.elim (.error .vaultNotFound) .ok)
  sysCall io.read
  return content

/-- `read_encrypted`, of the file of the store. -/
def readEncrypted (io : Io) : Method EncryptedVault := do
  let store ← Effect.gets World.store
  let content ← readFile io store.path
  Effect.ofExcept (readEncryptedBytes C content)

/-- `write_encrypted`, to the file of the store. -/
def writeEncrypted (io : Io) (encrypted : EncryptedVault) : Method Unit := do
  let store ← Effect.gets World.store
  Effect.within World.files (fun files world => { world with files := files })
    (writeAtomic io.write io.tempId store.path (encodeVault encrypted))

/-- The end of `mutate` and of `backup_import_bytes`: the data are encrypted and written,
and take the place of those in memory. -/
def commit (io : Io) (unlocked : UnlockedVault) (data : VaultData) : Method ConfigSnapshot := do
  let encrypted ← Effect.ofExcept (encryptWithSession C io.rng unlocked.crypto data)
  writeEncrypted io encrypted
  setUnlocked { unlocked with data := data }
  advanceRevision
  snapshotFor data

/-! ### The operations -/

/-- `VaultStore::mutate`. -/
def mutate (io : Io) (update : VaultData → AppResult VaultData) : Method ConfigSnapshot := do
  let unlocked ← unlockedVault
  let nextData ← Effect.ofExcept (update unlocked.data)
  commit C io unlocked (nextData.touch io.env.now)

/-- The methods of `VaultOp`. -/
def operate (io : Io) (op : VaultOp) : Method ConfigSnapshot := do
  Effect.ofExcept op.check
  let unlocked ← unlockedVault
  if op.isNoop unlocked.data then snapshotFor unlocked.data else mutate C io (op.update io.env)

/-- `u8::is_ascii_whitespace`. -/
def isAsciiWhitespace (b : UInt8) : Bool :=
  b ∈ [0x20, 0x09, 0x0a, 0x0c, 0x0d]

/-- `extract_backup_payload`. -/
def extractBackupPayload (bytes : List UInt8) : AppResult (List UInt8) :=
  if binaryMagic <+: bytes ∨ bytes.find? (fun b => !isAsciiWhitespace b) = some 0x7b then .ok bytes
  else
    match C.unzip bytes with
    | .invalid error => .error (.invalidInput s!"备份包无法打开: {error}")
    | .missing => .error (.invalidInput "备份包缺少 vault.rpvault")
    | .unreadable error => .error (.ioError error)
    | .payload content => .ok content

/-- `backup_decrypt_error`. -/
def backupDecryptError : AppError → AppError
  | .invalidMasterPassword => .invalidInput "备份文件与当前工作区不匹配或已损坏"
  | other => other

/-- `VaultStore::backup_import_bytes`. -/
def backupImportBytes (io : Io) (bytes : List UInt8) : Method ConfigSnapshot := do
  let payload ← Effect.ofExcept (extractBackupPayload C bytes)
  let encrypted ← Effect.ofExcept (readEncryptedBytes C payload)
  let unlocked ← unlockedVault
  let data ← Effect.ofExcept
    ((decryptWithKey C unlocked.crypto.key encrypted).mapError backupDecryptError)
  commit C io unlocked (migrateVaultData io.env.now data).1

/-- `VaultStore::backup_import`. -/
def backupImport (io : Io) (path : String) : Method ConfigSnapshot := do
  let content ← readFile io path
  let payload ← Effect.ofExcept (extractBackupPayload C content)
  backupImportBytes C io payload

/-! ### Opening and closing -/

/-- `VaultStore::create`. -/
def create (io : Io) (masterPassword : String) : Method ConfigSnapshot := do
  let world ← Effect.gets id
  Effect.ofExcept (refuse (world.files world.store.path ≠ none) .vaultAlreadyExists)
  let data := VaultData.withDefaultGroup io.env.now io.env.newId
  let encrypted ← Effect.ofExcept
    (if masterPassword = autoPassword then encryptWithPasswordFast C io.rng masterPassword data
      else encryptWithPassword C io.rng masterPassword data)
  writeEncrypted io encrypted.1
  setUnlocked { data := data, crypto := encrypted.2 }
  snapshotFor data

/-- The write of `unlock` when the migration has changed something. -/
def writeMigrated (io : Io) (crypto : CryptoSession) (migrated : VaultData × Bool) : Method Unit :=
  if migrated.2 then do
    let encrypted ← Effect.ofExcept (encryptWithSession C io.rng crypto migrated.1)
    writeEncrypted io encrypted
  else return ()

/-- `VaultStore::unlock`. -/
def unlock (io : Io) (masterPassword : String) : Method ConfigSnapshot := do
  let encrypted ← readEncrypted C io
  let opened ← Effect.ofExcept (decryptWithPassword C masterPassword encrypted)
  let migrated := migrateVaultData io.env.now opened.1
  writeMigrated C io opened.2 migrated
  setUnlocked { data := migrated.1, crypto := opened.2 }
  snapshotFor migrated.1

/-- The data are encrypted under the internal password, with a new session. -/
def encryptFast (io : Io) (data : VaultData) : Method Unit := do
  let encrypted ← Effect.ofExcept (encryptWithPasswordFast C io.rng autoPassword data)
  writeEncrypted io encrypted.1
  setUnlocked { data := data, crypto := encrypted.2 }

/-- `VaultStore::upgrade_to_fast_kdf_if_needed`. -/
def upgradeToFastKdfIfNeeded (io : Io) : Method Unit := do
  let store ← Effect.gets World.store
  match store.unlocked.filter fun unlocked => unlocked.crypto.isSlow with
  | none => return ()
  | some unlocked => (encryptFast C io unlocked.data).ignore

/-- `VaultStore::migrate`, with the `Io` of the unlocking and of the encryption. -/
def migrate (io io' : Io) (oldPassword : String) : Method ConfigSnapshot := do
  let _ ← unlock C io oldPassword
  let unlocked ← unlockedVault
  encryptFast C io' unlocked.data
  snapshotFor unlocked.data

/-- An existing workspace is opened with the internal password. -/
def openExisting (io io' : Io) : Method AutoOpenResult :=
  Effect.handle
    (do
      let _ ← unlock C io autoPassword
      upgradeToFastKdfIfNeeded C io'
      return .ready)
    fun error => if error = .invalidMasterPassword then .ok .needsMigration else .error error

/-- `VaultStore::auto_open`. -/
def autoOpen (io io' : Io) : Method AutoOpenResult := do
  let world ← Effect.gets id
  if world.files world.store.path = none then do
    let _ ← create C io autoPassword
    return .ready
  else openExisting C io io'

/-- `vault_skip_migration`: the old workspace is removed for a new one. -/
def skipMigration (io : Io) : Method ConfigSnapshot := do
  let world ← Effect.gets id
  let path := world.store.path
  sysCall (io.remove.map fun error => s!"删除旧本机数据失败: {path}: {error}")
  Effect.modify fun world =>
    { store := .new path, files := Function.update world.files path none }
  create C io autoPassword

end Vault
end HelmSsh
