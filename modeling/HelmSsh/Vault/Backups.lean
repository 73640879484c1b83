/-
# A copy of the workspace file can be imported again

`validate_backup_bytes` and `backup_import_bytes` of `src-tauri/src/vault.rs` decrypt a package with
the key in memory, and derive none.  So what a copy of the workspace file needs is that the key is
still the one it was encrypted under.  The key comes from the password, the salt and the parameters
in the header of the file (`Keyed`), and only `migrate`, the upgrade of a slow file and
`vault_skip_migration` write a header with another salt (`Header.moves`).

* `backup_restores` — under the same password, salt and parameters a copy passes the check
  and its import is the commit of the data that it holds; and both stay the same in a run without
  a new key.
* `backup_refused` — `migrate` with the same password gives a new salt, and the copy is refused.
-/

import HelmSsh.Crypto.Codec
import HelmSsh.Vault.Normalized
import HelmSsh.Vault.StoreRuns

namespace HelmSsh
namespace Vault

open Config Crypto

variable {C : Crates} {io : Io} {world world' : World} {path : String}
variable {opens : String → World → Prop}

/-! ### A package that is a copy -/

/-- `VaultStore::validate_backup_bytes`. -/
def validateBackupBytes (C : Crates) (io : Io) (bytes : List UInt8) : Method ConfigSnapshot := do
  let payload ← Effect.ofExcept (extractBackupPayload C bytes)
  let unlocked ← unlockedVault
  let encrypted ← Effect.ofExcept (readEncryptedBytes C payload)
  let data ← Effect.ofExcept
    ((decryptWithKey C unlocked.crypto.key encrypted).mapError backupDecryptError)
  snapshotFor (migrateVaultData io.env.now data).1

/-- `VaultStore::validate_backup`. -/
def validateBackup (C : Crates) (io : Io) (path : String) : Method ConfigSnapshot := do
  let content ← readFile io path
  let payload ← Effect.ofExcept (extractBackupPayload C content)
  validateBackupBytes C io payload

theorem extractBackupPayload_of_decodeVault {bytes : List UInt8} {encrypted : EncryptedVault}
    (h : decodeVault C bytes = .ok encrypted) : extractBackupPayload C bytes = .ok bytes := by
  rw [extractBackupPayload, if_pos (Or.inl (decodeVault_ok h).1)]

/-- A file that the key in memory does not decrypt is refused. -/
theorem refuses_of_decodeVault {bytes : List UInt8} {encrypted : EncryptedVault}
    {unlocked : UnlockedVault} (hdecode : decodeVault C bytes = .ok encrypted)
    (hunlocked : world.store.unlocked = some unlocked)
    (hdata : decryptWithKey C unlocked.crypto.key encrypted = .error .invalidMasterPassword) :
    backupImportBytes C io bytes world =
      (.error (.invalidInput "备份文件与当前工作区不匹配或已损坏"), world) := by
  have hread : readEncryptedBytes C bytes = .ok encrypted := hdecode
  rw [backupImportBytes,
    Effect.bind_ok (Effect.ofExcept_ok (extractBackupPayload_of_decodeVault hdecode)),
    Effect.bind_ok (Effect.ofExcept_ok hread), Effect.bind_ok (unlockedVault_eq hunlocked), hdata]
  rfl

/-- **A file that the key in memory decrypts is accepted**: the check shows what it holds,
and an import commits it. -/
theorem accepts_of_fileHolds {session : CryptoSession} {data : VaultData} {bytes : List UInt8}
    {unlocked : UnlockedVault} (hholds : FileHolds C session data (some bytes))
    (hunlocked : world.store.unlocked = some unlocked) (hkey : unlocked.crypto.key = session.key) :
    validateBackupBytes C io bytes world =
        (.ok { data := (migrateVaultData io.env.now data).1, revision := world.store.revision },
          world) ∧
      backupImportBytes C io bytes world =
        commit C io unlocked (migrateVaultData io.env.now data).1 world := by
  obtain ⟨content, encrypted, hcontent, hdecode, hdata⟩ := hholds
  obtain rfl := Option.some.inj hcontent
  have hpayload := extractBackupPayload_of_decodeVault hdecode
  have hread : readEncryptedBytes C bytes = .ok encrypted := hdecode
  have hopen : (decryptWithKey C unlocked.crypto.key encrypted).mapError backupDecryptError =
      .ok data := by
    rw [hkey, hdata]
    rfl
  have hvault := unlockedVault_eq hunlocked
  constructor
  · rw [validateBackupBytes, Effect.bind_ok (Effect.ofExcept_ok hpayload), Effect.bind_ok hvault,
      Effect.bind_ok (Effect.ofExcept_ok hread), Effect.bind_ok (Effect.ofExcept_ok hopen)]
    rfl
  · rw [backupImportBytes, Effect.bind_ok (Effect.ofExcept_ok hpayload),
      Effect.bind_ok (Effect.ofExcept_ok hread), Effect.bind_ok hvault,
      Effect.bind_ok (Effect.ofExcept_ok hopen)]

/-! ### The header of the file -/

/-- A file with this salt and these parameters in its header. -/
def Header (C : Crates) (salt : Salt) (params : KdfParams) (content : Option (List UInt8)) : Prop :=
  ∃ bytes encrypted, content = some bytes ∧ decodeVault C bytes = .ok encrypted ∧
    encrypted.salt = salt ∧ encrypted.params = params

theorem Header.unique {salt salt' : Salt} {params params' : KdfParams}
    {content : Option (List UInt8)} (h : Header C salt params content)
    (h' : Header C salt' params' content) : salt' = salt ∧ params' = params := by
  obtain ⟨bytes, encrypted, rfl, hdecode, rfl, rfl⟩ := h
  obtain ⟨bytes', encrypted', hcontent, hdecode', rfl, rfl⟩ := h'
  obtain rfl := Option.some.inj hcontent
  obtain rfl := Except.ok.inj (hdecode.symm.trans hdecode')
  exact ⟨rfl, rfl⟩

theorem SealedBy.header (hC : C.Lawful) {session : CryptoSession} {data : VaultData}
    {content : Option (List UInt8)} (hsupported : session.params.argon2 C = .ok ())
    (h : SealedBy C session data content) : Header C session.salt session.params content := by
  obtain ⟨rng, encrypted, hencrypt, rfl⟩ := h
  obtain ⟨hsalt, hparams⟩ := encryptWithSession_header hencrypt
  obtain ⟨_, hlen, _⟩ := encryptWithSession_decrypts hC hencrypt
  refine ⟨_, encrypted, rfl, decodeVault_encodeVault ?_ hlen, hsalt, hparams⟩
  rw [hparams]
  exact hsupported

/-- The store is sound, and its file has the header of the session in memory. -/
structure Keyed (C : Crates) (path : String) (world : World) : Prop where
  sound : Sound C path world
  header : ∀ unlocked, world.store.unlocked = some unlocked →
    Header C unlocked.crypto.salt unlocked.crypto.params (world.files path)

theorem keyed_locked (hsound : Sound C path world) (h : world.store.unlocked = none) :
    Keyed C path world :=
  ⟨hsound, fun unlocked hunlocked => by cases h.symm.trans hunlocked⟩

/-- A store whose session has written its file is keyed. -/
theorem keyed_sealed (hC : C.Lawful) (hsound : Sound C path world') {data : VaultData}
    {session : CryptoSession}
    (hstore : world'.store.unlocked = some { data := data, crypto := session })
    (hfile : SealedBy C session data (world'.files path)) : Keyed C path world' := by
  refine ⟨hsound, fun unlocked hunlocked => ?_⟩
  rw [hstore] at hunlocked
  obtain rfl := Option.some.inj hunlocked
  exact hfile.header hC (hsound.supported _ hstore)

/-- A store that was opened is keyed, and the file has the header that it had. -/
theorem Opened.header (hC : C.Lawful) (hpath : world.store.path = path) {masterPassword : String}
    {encrypted : EncryptedVault} {data : VaultData} {session : CryptoSession}
    {snapshot : ConfigSnapshot}
    (h : Opened C io masterPassword world encrypted data session snapshot world') :
    Header C session.salt session.params (world.files path) ∧
      Header C session.salt session.params (world'.files path) := by
  obtain ⟨content, hcontent, hdecode⟩ := h.content
  obtain ⟨_, hsalt, hparams⟩ := decryptWithPassword_session h.opens
  rw [hpath] at hcontent
  have hbefore : Header C session.salt session.params (world.files path) :=
    ⟨content, encrypted, hcontent, hdecode, hsalt.symm, hparams.symm⟩
  refine ⟨hbefore, ?_⟩
  rcases h.file with ⟨_, hfiles⟩ | ⟨_, hsealed⟩
  · rw [hfiles]
    exact hbefore
  · rw [hpath] at hsealed
    exact hsealed.header hC (decryptWithPassword_ok h.opens).1

/-- **A move keeps the store keyed.** -/
theorem Keyed.move (hC : C.Lawful) (h : Keyed C path world) (hmove : Move C opens world world') :
    Keyed C path world' := by
  have hsound := h.sound.move hC hmove
  have hpath := h.sound.atPath
  cases hmove with
  | untouched hsame =>
    refine ⟨hsound, fun unlocked hunlocked => ?_⟩
    have hfile := hsame.file
    rw [hpath] at hfile
    rw [hsame.store] at hunlocked
    rw [hfile]
    exact h.header unlocked hunlocked
  | created masterPassword env session hnone hinstalled =>
    have hfile := hinstalled.file
    rw [hpath] at hfile
    refine keyed_sealed hC hsound ?_ hfile
    rw [hinstalled.store]
  | opened io masterPassword encrypted data session snapshot _ hopened =>
    refine ⟨hsound, fun unlocked hunlocked => ?_⟩
    rw [hopened.store] at hunlocked
    obtain rfl := Option.some.inj hunlocked
    exact (hopened.header hC hpath).2
  | changed env mutation unlocked data snapshot hunlocked hgives hchange =>
    have hfile := hchange.file
    rw [hpath] at hfile
    refine keyed_sealed hC hsound ?_ hfile
    rw [hchange.store]

theorem Keyed.rekey (hC : C.Lawful) (h : Keyed C path world) (hrekey : Rekey C world world') :
    Keyed C path world' := by
  have hsound := h.sound.rekey hC hrekey
  obtain ⟨unlocked, session, _, hinstalled⟩ := hrekey
  have hfile := hinstalled.file
  rw [h.sound.atPath] at hfile
  refine keyed_sealed hC hsound ?_ hfile
  rw [hinstalled.store]

/-- **One step keeps the store keyed.** -/
theorem Keyed.step (hC : C.Lawful) {event : StoreEvent} (h : Keyed C path world)
    (hstep : (vaultStore C path).step world event = some world') : Keyed C path world' := by
  have hsound := h.sound.step hC hstep
  rcases moves_of_step hstep with hrestart | ⟨_, removed, _, hremoved, hmove⟩ | hmoves
  · refine keyed_locked hsound ?_
    rw [hrestart.store, VaultStore.new]
  · have hnew : removed.store.unlocked = none := by rw [hremoved.store, VaultStore.new]
    have hlocked : Sound C path removed :=
      sound_locked (by rw [hremoved.store, VaultStore.new, h.sound.atPath]) hnew
    exact (keyed_locked hlocked hnew).move hC hmove
  · exact hmoves.keeps (fun _ _ hs => hs.move hC) (fun _ _ _ hs => hs.rekey hC) h

/-- **A move keeps the header.** -/
theorem Keyed.move_header (hC : C.Lawful) (h : Keyed C path world)
    (hmove : Move C opens world world')
    {salt : Salt} {params : KdfParams} (hheader : Header C salt params (world.files path)) :
    Header C salt params (world'.files path) := by
  have hpath := h.sound.atPath
  cases hmove with
  | untouched hsame =>
    have hfile := hsame.file
    rw [hpath] at hfile
    rw [hfile]
    exact hheader
  | created masterPassword env session hnone hinstalled =>
    obtain ⟨bytes, _, hbytes, _⟩ := hheader
    rw [hpath, hbytes] at hnone
    cases hnone
  | opened io masterPassword encrypted data session snapshot _ hopened =>
    obtain ⟨hbefore, hafter⟩ := hopened.header hC hpath
    obtain ⟨rfl, rfl⟩ := hbefore.unique hheader
    exact hafter
  | changed env mutation unlocked data snapshot hunlocked hgives hchange =>
    have hfile := hchange.file
    rw [hpath] at hfile
    obtain ⟨rfl, rfl⟩ := (h.header unlocked hunlocked).unique hheader
    exact hfile.header hC (h.sound.supported unlocked hunlocked)

/-- The event gives the workspace no new key. -/
def KeepsKey (C : Crates) (world : World) : StoreEvent → Prop
  | .migrate .. | .skipMigration _ => False
  | .autoOpen .. => ¬SlowFile C world
  | _ => True

theorem KeepsKey.not_rekeys {event : StoreEvent} (h : KeepsKey C world event) :
    ¬Rekeys C world event := by
  cases event with
  | migrate => exact fun _ => h
  | autoOpen => exact h
  | _ => exact id

/-- **One step without a new key keeps the header.** -/
theorem Keyed.step_header (hC : C.Lawful) {event : StoreEvent} (h : Keyed C path world)
    (hkeeps : KeepsKey C world event)
    (hstep : (vaultStore C path).step world event = some world') {salt : Salt} {params : KdfParams}
    (hheader : Header C salt params (world.files path)) :
    Header C salt params (world'.files path) := by
  rcases moves_of_step hstep with hrestart | ⟨io, _, rfl, _⟩ | hmoves
  · have hfile := hrestart.file
    rw [h.sound.atPath] at hfile
    rw [hfile]
    exact hheader
  · exact hkeeps.elim
  · have hboth : Keyed C path world' ∧ Header C salt params (world'.files path) := by
      refine hmoves.keeps (P := fun w => Keyed C path w ∧ Header C salt params (w.files path))
        (fun _ _ hs hmove => ⟨hs.1.move hC hmove, hs.1.move_header hC hmove hs.2⟩)
        (fun hrekeys => absurd hrekeys hkeeps.not_rekeys) ⟨h, hheader⟩
    exact hboth.2

/-! ### Runs -/

/-- **A copy of the workspace file can be imported again.**  A copy is taken while the store is
unlocked with a password, and later the store is unlocked with the same password.  When the salt
and the parameters of the session are still those of the copy, the copy passes the check, and
its import is the commit of the data that were in memory when it was taken.  Both are the same
after every run without a migration, without the removal of the workspace and without the upgrade
of a slow file. -/
theorem backup_restores (hC : C.Lawful) {files : Files} {before after : List StoreEvent}
    {copied : World} {password : String} {bytes : List UInt8} {unlocked₁ unlocked₂ : UnlockedVault}
    (hbefore : (vaultStore C path).runFrom { store := .new path, files := files } before =
      some copied)
    (hafter : (vaultStore C path).runFrom copied after = some world)
    (hcopied : copied.store.unlocked = some unlocked₁) (hbytes : copied.files path = some bytes)
    (hworld : world.store.unlocked = some unlocked₂)
    (hkey₁ : KeyOf C password unlocked₁.crypto) (hkey₂ : KeyOf C password unlocked₂.crypto) :
    (unlocked₂.crypto.salt = unlocked₁.crypto.salt ∧
        unlocked₂.crypto.params = unlocked₁.crypto.params →
      FileHolds C unlocked₁.crypto unlocked₁.data (some bytes) ∧
      ∀ io : Io,
        validateBackupBytes C io bytes world =
          (.ok
            { data := (migrateVaultData io.env.now unlocked₁.data).1
              revision := world.store.revision }, world) ∧
        backupImportBytes C io bytes world =
          commit C io unlocked₂ (migrateVaultData io.env.now unlocked₁.data).1 world) ∧
    ((vaultStore C path).MeetsFrom (KeepsKey C) copied after →
      unlocked₂.crypto.salt = unlocked₁.crypto.salt ∧
        unlocked₂.crypto.params = unlocked₁.crypto.params) := by
  have hstart : Keyed C path { store := .new path, files := files } :=
    keyed_locked (sound_locked rfl rfl) rfl
  have hfirst : Keyed C path copied :=
    Machine.runFrom_invariant (fun _ _ _ hs => hs.step hC) hstart hbefore
  have hheader := hfirst.header unlocked₁ hcopied
  constructor
  · rintro ⟨hsalt, hparams⟩
    have hholds := hfirst.sound.file unlocked₁ hcopied
    rw [hbytes] at hholds
    have hkey : unlocked₂.crypto.key = unlocked₁.crypto.key := by
      have hderive : deriveKey C password unlocked₁.crypto.salt unlocked₁.crypto.params =
          .ok unlocked₂.crypto.key := by
        rw [← hsalt, ← hparams]
        exact hkey₂
      exact Except.ok.inj (hderive.symm.trans hkey₁)
    exact ⟨hholds, fun io => accepts_of_fileHolds hholds hworld hkey⟩
  · intro hkeeps
    have hlast : Keyed C path world ∧
        Header C unlocked₁.crypto.salt unlocked₁.crypto.params (world.files path) := by
      refine Machine.runFrom_invariant_of (I := fun w => Keyed C path w ∧
        Header C unlocked₁.crypto.salt unlocked₁.crypto.params (w.files path)) ?_
        ⟨hfirst, hheader⟩ hkeeps hafter
      exact fun s event s' hs hok hstep => ⟨hs.1.step hC hstep, hs.1.step_header hC hok hstep hs.2⟩
    exact hlast.2.unique (hlast.1.header unlocked₂ hworld)

/-! ### A new key -/

/-- The tag of the cipher below: the two halves of the key, added up. -/
def keyTag (key : Key) : List UInt8 :=
  List.zipWith (· + ·) (key.toList.take 16) (key.toList.drop 16)

theorem length_keyTag (key : Key) : (keyTag key).length = 16 := by
  have hlength : key.toList.length = 32 := key.toList_length
  rw [keyTag, List.length_zipWith, List.length_take, List.length_drop, hlength]
  rfl

/-- The key of a password and a salt in the runs below: the salt, and whether the password is the
internal one. -/
def keyedKey (password : String) (salt : Salt) : Key :=
  let kind : List.Vector UInt8 16 :=
    List.Vector.replicate 16 (if password = autoPassword then 0 else 1)
  (salt ++ kind : List.Vector UInt8 (16 + 16))

/-- The crates of the runs before, with such keys and a cipher that refuses another tag. -/
def keyedCrates : Crates :=
  { exampleCrates with
    hashPasswordInto := fun _ password salt => .ok (keyedKey password salt)
    encrypt := fun key _ msg _ => some (msg ++ keyTag key)
    decrypt := fun key _ ciphertext _ =>
      if keyTag key <:+ ciphertext then some (ciphertext.take (ciphertext.length - 16)) else none }

/-- The crates of the runs below do what the source relies on. -/
theorem keyedCrates_lawful : keyedCrates.Lawful where
  decrypt_encrypt := by
    intro key nonce msg aad ciphertext h
    obtain rfl := Option.some.inj h
    show (if keyTag key <:+ msg ++ keyTag key then _ else _) = _
    rw [if_pos (List.suffix_append _ _), List.length_append, length_keyTag, Nat.add_sub_cancel,
      List.take_left]
  length_encrypt := by
    intro key nonce msg aad ciphertext h
    obtain rfl := Option.some.inj h
    rw [List.length_append, length_keyTag]
  fromSlice_toVec := exampleCrates_lawful.fromSlice_toVec

theorem keyedCrates_refuses {key : Key} (key' : Key) {nonce : Nonce}
    {msg aad ciphertext : List UInt8}
    (hseal : keyedCrates.encrypt key nonce msg aad = some ciphertext)
    (hne : keyTag key' ≠ keyTag key) : keyedCrates.decrypt key' nonce ciphertext aad = none := by
  obtain rfl := Option.some.inj hseal
  show (if keyTag key' <:+ msg ++ keyTag key then _ else _) = _
  refine if_neg fun hsuffix => hne ?_
  have hlength : (keyTag key').length = (keyTag key).length := by
    rw [length_keyTag, length_keyTag]
  exact (List.suffix_of_suffix_length_le hsuffix (List.suffix_append _ _) hlength.le).eq_of_length
    hlength

/-- No failure and fixed random bytes, with a salt. -/
def keyedIo (salt : UInt8) : Io :=
  { exampleIo with rng := { exampleIo.rng with salt := List.Vector.replicate 16 salt } }

/-- The session of a password and a salt in the runs below. -/
def keyedSession (params : KdfParams) (password : String) (salt : UInt8) : CryptoSession where
  key := keyedKey password (List.Vector.replicate 16 salt)
  salt := List.Vector.replicate 16 salt
  params := params

/-- What that session makes of the workspace of the runs below. -/
def keyedVault (params : KdfParams) (password : String) (salt : UInt8) : EncryptedVault where
  params := params
  salt := List.Vector.replicate 16 salt
  nonce := List.Vector.replicate 24 2
  ciphertext := exampleJson "null" ++ keyTag (keyedKey password (List.Vector.replicate 16 salt))

theorem keyedVault_sealed (params : KdfParams) (password : String) (salt : UInt8)
    (aad : List UInt8) :
    keyedCrates.encrypt (keyedKey password (List.Vector.replicate 16 salt))
      (List.Vector.replicate 24 2) (exampleJson "null") aad =
        some (keyedVault params password salt).ciphertext := rfl

/-- The store after its creation in the runs below. -/
structure KeyedAt (params : KdfParams) (password : String) (salt : UInt8) (world : World) :
    Prop where
  store : world.store =
    { path := "vault.rpvault"
      unlocked := some { data := exampleData none, crypto := keyedSession params password salt }
      revision := 0 }
  file : world.files "vault.rpvault" = some (encodeVault (keyedVault params password salt))
  free : world.files (tempPathFor "vault.rpvault" "0") = none

theorem keyedAt_create {params : KdfParams} {password : String} {salt : UInt8}
    (hparams : params = if password = autoPassword then kdfParamsFast else kdfParamsCurrent)
    (hencrypt : encryptWithParams keyedCrates params (keyedIo salt).rng password
      (.withDefaultGroup "t" "g") =
        .ok (keyedVault params password salt, keyedSession params password salt)) :
    ∃ world, (vaultStore keyedCrates "vault.rpvault").run [.create (keyedIo salt) password] =
      some world ∧ KeyedAt params password salt world := by
  refine ⟨_, rfl, ?_⟩
  have hcreate := @create_succeeds keyedCrates (keyedIo salt)
    { store := .new "vault.rpvault", files := fun _ => none } params password _ rfl hparams hencrypt
    rfl rfl
  have hafter := (hcreate.mono (fun _ _ h => h) fun _ _ h => h.elim).after
  exact ⟨hafter.1, hafter.2.1, hafter.2.2⟩

/-- The password opens the workspace of the runs below. -/
theorem keyedVault_opens {params : KdfParams} {password : String} {salt : UInt8}
    (hparams : params = kdfParamsFast ∨ params = kdfParamsCurrent) :
    decodeVault keyedCrates (encodeVault (keyedVault params password salt)) =
        .ok (keyedVault params password salt) ∧
      decryptWithPassword keyedCrates password (keyedVault params password salt) =
        .ok (exampleData none, keyedSession params password salt) := by
  have hsupported : params.argon2 keyedCrates = .ok () := by
    rcases hparams with rfl | rfl
    · rfl
    · rfl
  have hlen : 16 ≤ (keyedVault params password salt).ciphertext.length := by
    show 16 ≤ (exampleJson "null" ++ keyTag (keyedKey password _)).length
    rw [List.length_append, length_keyTag]
    exact Nat.le_add_left _ _
  have hopened := keyedCrates_lawful.decrypt_encrypt _ _ _ _ _
    (keyedVault_sealed params password salt (binaryHeader (keyedVault params password salt)
      (keyedVault params password salt).ciphertext.length))
  have hdata : decryptWithKey keyedCrates (keyedKey password (List.Vector.replicate 16 salt))
      (keyedVault params password salt) = .ok (exampleData none) := by
    have hread : keyedCrates.fromSlice (exampleJson "null") = some (exampleData none) :=
      if_pos rfl
    rw [decryptWithKey]
    dsimp only [keyedVault] at hopened ⊢
    rw [hopened, Option.bind_some, hread]
    rfl
  have hkey : deriveKey keyedCrates password (List.Vector.replicate 16 salt) params =
      .ok (keyedKey password (List.Vector.replicate 16 salt)) := by
    rw [deriveKey, hsupported]
    rfl
  refine ⟨decodeVault_encodeVault hsupported hlen, ?_⟩
  show (deriveKey keyedCrates password (List.Vector.replicate 16 salt) params >>= _) = _
  rw [hkey]
  show (decryptWithKey keyedCrates (keyedKey password (List.Vector.replicate 16 salt))
    (keyedVault params password salt) >>= _) = _
  rw [hdata]
  rfl

/-- A workspace is created and copied, an API key is set, and the copy can be imported. -/
theorem backup_restores_keySet :
    ∃ copied world bytes unlocked₂,
      (vaultStore keyedCrates "vault.rpvault").run [.create (keyedIo 1) autoPassword] =
        some copied ∧
      copied.files "vault.rpvault" = some bytes ∧
      (vaultStore keyedCrates "vault.rpvault").runFrom copied
        [.mutate (keyedIo 1) (.operate (.settingsAiApiKeyUpdate (some "sk")))] = some world ∧
      world.store.unlocked = some unlocked₂ ∧ unlocked₂.data = exampleData (some "sk") ∧
      backupImportBytes keyedCrates (keyedIo 1) bytes world =
        commit keyedCrates (keyedIo 1) unlocked₂ (exampleData none) world := by
  obtain ⟨copied, hrun, hcopied⟩ := @keyedAt_create kdfParamsFast autoPassword 1 rfl rfl
  have hpath : copied.store.path = "vault.rpvault" := by rw [hcopied.store]
  have hunlocked₁ : copied.store.unlocked =
      some { data := exampleData none, crypto := keyedSession kdfParamsFast autoPassword 1 } := by
    rw [hcopied.store]
  have hmutate := @operate_succeeds keyedCrates (keyedIo 1) copied
    (.settingsAiApiKeyUpdate (some "sk")) _ _ _ rfl hunlocked₁ rfl rfl rfl rfl
      (hpath ▸ hcopied.free)
  have hworld := (hmutate.mono (fun _ _ h => h.1) fun _ _ h => h.elim).after
  have hunlocked₂ : (operate keyedCrates (keyedIo 1) (.settingsAiApiKeyUpdate (some "sk"))
      copied).2.store.unlocked =
      some
        { data := exampleData (some "sk")
          crypto := keyedSession kdfParamsFast autoPassword 1 } := by
    rw [hworld]
    rfl
  have hafter : (vaultStore keyedCrates "vault.rpvault").runFrom copied
      [.mutate (keyedIo 1) (.operate (.settingsAiApiKeyUpdate (some "sk")))] =
        some (operate keyedCrates (keyedIo 1) (.settingsAiApiKeyUpdate (some "sk")) copied).2 := rfl
  have hkey : KeyOf keyedCrates autoPassword (keyedSession kdfParamsFast autoPassword 1) := rfl
  obtain ⟨hrestore, hsame⟩ := backup_restores keyedCrates_lawful hrun hafter hunlocked₁ hcopied.file
    hunlocked₂ hkey hkey
  have hkeeps := hsame ⟨trivial, fun _ _ => trivial⟩
  have hcommit := ((hrestore hkeeps).2 (keyedIo 1)).2
  have hdata : migrateVaultData (keyedIo 1).env.now
    (exampleData none) = (exampleData none, false) :=
    (normalized_withDefaultGroup "t" "g").migrateVaultData_eq "t"
  dsimp only at hcommit
  rw [hdata] at hcommit
  exact ⟨copied, _, _, _, hrun, hcopied.file, hafter, hunlocked₂, rfl, hcommit⟩

/-- **A copy is refused after `migrate` with the same password.**  A workspace is created with the
internal password and copied; then it is migrated with the same password, which gives it a new
salt, and the copy is refused. -/
theorem backup_refused :
    ∃ copied world bytes unlocked₁ unlocked₂,
      (vaultStore keyedCrates "vault.rpvault").runFrom
        { store := .new "vault.rpvault", files := fun _ => none }
        [.create (keyedIo 1) autoPassword] = some copied ∧
      (vaultStore keyedCrates "vault.rpvault").runFrom copied
        [.migrate (keyedIo 1) (keyedIo 3) autoPassword] = some world ∧
      copied.store.unlocked = some unlocked₁ ∧ copied.files "vault.rpvault" = some bytes ∧
      world.store.unlocked = some unlocked₂ ∧
      KeyOf keyedCrates autoPassword unlocked₁.crypto ∧
      KeyOf keyedCrates autoPassword unlocked₂.crypto ∧
      backupImportBytes keyedCrates (keyedIo 1) bytes world =
        (.error (.invalidInput "备份文件与当前工作区不匹配或已损坏"), world) := by
  obtain ⟨copied, hrun, hcopied⟩ :=
    @keyedAt_create kdfParamsFast autoPassword 1 rfl rfl
  obtain ⟨hdecode, hopens⟩ := @keyedVault_opens kdfParamsFast autoPassword 1 (.inl rfl)
  have hpath : copied.store.path = "vault.rpvault" := by rw [hcopied.store]
  have hmigrate := @migrate_succeeds keyedCrates (keyedIo 1) copied (keyedIo 3) autoPassword _ _ _ _
    (keyedVault kdfParamsFast autoPassword 3, keyedSession kdfParamsFast autoPassword 3) rfl
    (hpath ▸ hcopied.file) hdecode hopens
    ((normalized_withDefaultGroup "t" "g").migrateVaultData_eq "t") rfl rfl (hpath ▸ hcopied.free)
  have hworld := (hmigrate.mono (fun _ _ h => h) fun _ _ h => h.elim).after
  have hunlocked₁ : copied.store.unlocked =
      some { data := exampleData none, crypto := keyedSession kdfParamsFast autoPassword 1 } := by
    rw [hcopied.store]
  have hunlocked₂ : (migrate keyedCrates (keyedIo 1) (keyedIo 3) autoPassword
      copied).2.store.unlocked =
      some { data := exampleData none, crypto := keyedSession kdfParamsFast autoPassword 3 } := by
    rw [hworld]
  refine ⟨copied, _, _, _, _, hrun, rfl, hunlocked₁, hcopied.file, hunlocked₂, rfl, rfl, ?_⟩
  refine refuses_of_decodeVault hdecode hunlocked₂ ?_
  have hnone := keyedCrates_refuses (keyedSession kdfParamsFast autoPassword 3).key
    (keyedVault_sealed kdfParamsFast autoPassword 1
      (binaryHeader (keyedVault kdfParamsFast autoPassword 1)
        (keyedVault kdfParamsFast autoPassword 1).ciphertext.length)) (by decide)
  rw [decryptWithKey]
  dsimp only [keyedVault] at hnone ⊢
  rw [hnone]
  rfl

end Vault
end HelmSsh
