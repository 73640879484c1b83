/-
# A migration that fails half way

`VaultStore::migrate` of `src-tauri/src/vault.rs` unlocks the workspace with the old password and
then encrypts it under the internal one.  The other methods of the store take up their result only
when it is written; `migrate` takes up that of the unlocking first, which stays when the second
stage fails: a store that was locked is then unlocked, and a file that was brought up to date is
written (`migrate_leaves_unlocked`).

`migrate_safe_iff` says when a migration that fails has left the store and its file as they were,
and one that succeeds has left a file that only the new password opens, to the same data: exactly
when the old password does not open the workspace, or the second stage succeeds and the old password
is not the internal one, or it fails and the unlocking had nothing to do (`MigratesWhole`).
-/

import HelmSsh.Vault.Backups

namespace HelmSsh
namespace Vault

open Config Crypto

variable {C : Crates} {io io' : Io} {world world' : World} {oldPassword : String}

/-! ### What a file opens to -/

/-- The password opens the file, to the data and a session. -/
def OpensTo (C : Crates) (password : String) (content : Option (List UInt8)) (data : VaultData)
    (session : CryptoSession) : Prop :=
  ∃ bytes encrypted, content = some bytes ∧ decodeVault C bytes = .ok encrypted ∧
    decryptWithPassword C password encrypted = .ok (data, session)

variable {data : VaultData} {session : CryptoSession} {encrypted : EncryptedVault}
  {snapshot : ConfigSnapshot}

theorem OpensTo.unique {password : String} {content : Option (List UInt8)} {data' : VaultData}
    {session' : CryptoSession} (h : OpensTo C password content data session)
    (h' : OpensTo C password content data' session') : data' = data ∧ session' = session := by
  obtain ⟨bytes, encrypted, rfl, hdecode, hopens⟩ := h
  obtain ⟨bytes', encrypted', hcontent, hdecode', hopens'⟩ := h'
  obtain rfl := Option.some.inj hcontent
  obtain rfl := Except.ok.inj (hdecode.symm.trans hdecode')
  exact Prod.mk.inj (Except.ok.inj (hopens'.symm.trans hopens))

theorem SealedBy.opensTo (hC : C.Lawful) {password : String}
    {content : Option (List UInt8)} (hkey : KeyOf C password session)
    (h : SealedBy C session data content) : OpensTo C password content data session := by
  obtain ⟨rng, encrypted, hencrypt, rfl⟩ := h
  obtain ⟨hsalt, hparams⟩ := encryptWithSession_header hencrypt
  obtain ⟨_, hlen, hdata⟩ := encryptWithSession_decrypts hC hencrypt
  refine ⟨_, encrypted, rfl, decodeVault_encodeVault ?_ hlen,
    decryptWithPassword_of_key hkey hsalt hparams hdata⟩
  rw [hparams]
  exact deriveKey_ok hkey

/-- What the source relies on for what a migration encrypts under the internal password: the cipher
refuses it the key of another one. -/
def PasswordsApart (C : Crates) (rng : EncryptIo) (password : String) (data : VaultData) : Prop :=
  password ≠ autoPassword → ∀ encrypted session key,
    encryptWithPasswordFast C rng autoPassword data = .ok (encrypted, session) →
      deriveKey C password encrypted.salt encrypted.params = .ok key → Refuses C key encrypted

/-- What is encrypted so, another password does not open. -/
theorem PasswordsApart.not_opensTo (hC : C.Lawful) {rng : EncryptIo} {password : String}
    (hapart : PasswordsApart C rng password data) (hne : password ≠ autoPassword)
    (hencrypt : encryptWithPasswordFast C rng autoPassword data = .ok (encrypted, session))
    (data' : VaultData) (session' : CryptoSession) :
    ¬OpensTo C password (some (encodeVault encrypted)) data' session' := by
  rintro ⟨bytes, encrypted', hcontent, hdecode', hopens⟩
  obtain ⟨hkey, _, _, hseal⟩ := encryptWithParams_session hencrypt
  obtain ⟨hsalt, hparams⟩ := encryptWithSession_header hseal
  obtain ⟨_, hlen, _⟩ := encryptWithSession_decrypts hC hseal
  have hdecode : decodeVault C (encodeVault encrypted) = .ok encrypted := by
    refine decodeVault_encodeVault ?_ hlen
    rw [hparams]
    exact deriveKey_ok hkey
  obtain rfl := Option.some.inj hcontent
  obtain rfl := Except.ok.inj (hdecode.symm.trans hdecode')
  obtain ⟨key, hderive, hopens⟩ := bind_ok hopens
  obtain ⟨_, hdata, _⟩ := bind_ok hopens
  rw [(hapart hne encrypted session key hencrypt hderive).decryptWithKey] at hdata
  cases hdata

/-- What the encryption under the internal password writes. -/
theorem encryptFast_written (data : VaultData) :
    (encryptFast C io data).Post world
      (fun _ world' => ∃ encrypted session,
        encryptWithPasswordFast C io.rng autoPassword data = .ok (encrypted, session) ∧
          world'.files world.store.path = some (encodeVault encrypted) ∧
            Installed C autoPassword world data session world')
      fun _ world' => Untouched world world' := by
  refine .bind (.ofExcept (fun encrypted hencrypt => ?_) fun _ _ => .refl world)
  obtain ⟨hkey, _, _, hseal⟩ := encryptWithParams_session hencrypt
  refine .bind (writeEncrypted_post (fun files hfile => ?_) fun _ _ h => h)
  exact .modify ⟨encrypted.1, encrypted.2, hencrypt, hfile, hkey, rfl, _, encrypted.1, hseal, hfile⟩

/-! ### The two stages -/

/-- What a migration leaves when it succeeds: the new password opens the file to the data that the
old one had opened it to, brought up to date, and the old one does not open it. -/
structure Migrated (C : Crates) (io : Io) (oldPassword : String) (world world' : World) :
    Prop where
  opens : ∃ data session session',
    OpensTo C oldPassword (world.files world.store.path) data session ∧
      OpensTo C autoPassword (world'.files world.store.path) (migrateVaultData io.env.now data).1
        session'
  closed : ∀ data session, ¬OpensTo C oldPassword (world'.files world.store.path) data session

/-- A migration that succeeds has done what it is for, and one that fails has done nothing. -/
def MigrationSafe (C : Crates) (io io' : Io) (oldPassword : String) (world : World) : Prop :=
  match migrate C io io' oldPassword world with
  | (.ok _, world') => Migrated C io oldPassword world world'
  | (.error _, world') => Untouched world world'

/-- The store is unlocked already, with what the old password opens its file to, and the file is up
to date. -/
def AlreadyOpen (C : Crates) (io : Io) (oldPassword : String) (world : World) : Prop :=
  ∃ data session, OpensTo C oldPassword (world.files world.store.path) data session ∧
    (migrateVaultData io.env.now data).2 = false ∧
      world.store.unlocked = some { data := data, crypto := session }

/-- The unlocking fails; or the encryption after it succeeds, and the old password is not the new
one; or it fails, and the unlocking had nothing to do. -/
def MigratesWhole (C : Crates) (io io' : Io) (oldPassword : String) (world : World) : Prop :=
  match unlock C io oldPassword world with
  | (.error _, _) => True
  | (.ok snapshot, opened) =>
    match encryptFast C io' snapshot.data opened with
    | (.ok _, _) => oldPassword ≠ autoPassword
    | (.error _, _) => AlreadyOpen C io oldPassword world

theorem Opened.opensTo (h : Opened C io oldPassword world encrypted data session snapshot world') :
    OpensTo C oldPassword (world.files world.store.path) data session := by
  obtain ⟨bytes, hbytes, hdecode⟩ := h.content
  exact ⟨bytes, encrypted, hbytes, hdecode, h.opens⟩

/-- A migration that changes data changes more than their time stamp. -/
theorem migrateVaultData_ne {now : String}
    (h : (migrateVaultData now data).2 = true) : (migrateVaultData now data).1 ≠ data := by
  intro heq
  have hnormalized := normalized_migrateVaultData now data
  rw [heq] at hnormalized
  rw [hnormalized.migrateVaultData_eq now] at h
  cases h

/-- **The unlocking changes nothing exactly when it has nothing to do.** -/
theorem Opened.untouched_iff (hC : C.Lawful)
    (h : Opened C io oldPassword world encrypted data session snapshot world') :
    Untouched world world' ↔ AlreadyOpen C io oldPassword world := by
  constructor
  · intro hsame
    have hflag : (migrateVaultData io.env.now data).2 = false := by
      rcases h.file with ⟨hflag, _⟩ | ⟨hflag, hsealed⟩
      · exact hflag
      · have hwritten := hsealed.opensTo hC (decryptWithPassword_session h.opens).1
        rw [hsame.file] at hwritten
        exact absurd (h.opensTo.unique hwritten).1 (migrateVaultData_ne hflag)
    refine ⟨data, session, h.opensTo, hflag, ?_⟩
    have hstore := congrArg VaultStore.unlocked (h.store.symm.trans hsame.store)
    rw [migrateVaultData_eq hflag] at hstore
    exact hstore.symm
  · rintro ⟨data', session', hopens, hflag, hunlocked⟩
    obtain ⟨rfl, rfl⟩ := h.opensTo.unique hopens
    refine ⟨?_, ?_⟩
    · rw [h.store, migrateVaultData_eq hflag, ← hunlocked]
    · rcases h.file with ⟨_, hfiles⟩ | ⟨hmigrated, _⟩
      · rw [hfiles]
      · rw [hflag] at hmigrated
        cases hmigrated

/-- After the unlocking, `migrate` is the encryption. -/
theorem migrate_of_unlock {opened : World}
    (hunlock : unlock C io oldPassword world = (.ok snapshot, opened))
    (h : Opened C io oldPassword world encrypted data session snapshot opened) :
    migrate C io io' oldPassword world =
      (do
        encryptFast C io' snapshot.data
        snapshotFor snapshot.data : Method ConfigSnapshot) opened := by
  have hunlocked : opened.store.unlocked =
      some { data := snapshot.data, crypto := session } := by
    rw [h.store, h.snapshot]
  rw [migrate, Effect.bind_ok hunlock, Effect.bind_ok (unlockedVault_eq hunlocked)]

/-- When the encryption has failed, the migration has done nothing exactly when the unlocking had
nothing to do. -/
theorem Opened.failed_iff (hC : C.Lawful) {opened : World}
    (h : Opened C io oldPassword world encrypted data session snapshot opened)
    (hsame : Untouched opened world') :
    Untouched world world' ↔ AlreadyOpen C io oldPassword world := by
  have hpath : opened.store.path = world.store.path := by rw [h.store]
  have hfile := hsame.file
  rw [hpath] at hfile
  rw [← h.untouched_iff hC]
  constructor
  · exact fun hall => ⟨hsame.store.symm.trans hall.store, hfile.symm.trans hall.file⟩
  · exact fun hfirst => ⟨hsame.store.trans hfirst.store, hfile.trans hfirst.file⟩

/-- When the encryption has succeeded, the migration has done what it is for exactly when the old
password is not the new one. -/
theorem Opened.migrated_iff (hC : C.Lawful) {encrypted' : EncryptedVault} {session' : CryptoSession}
    {opened : World} (hapart : PasswordsApart C io'.rng oldPassword snapshot.data)
    (h : Opened C io oldPassword world encrypted data session snapshot opened)
    (hencrypt : encryptWithPasswordFast C io'.rng autoPassword snapshot.data =
      .ok (encrypted', session'))
    (hwritten : world'.files opened.store.path = some (encodeVault encrypted'))
    (hinstalled : Installed C autoPassword opened snapshot.data session' world') :
    Migrated C io oldPassword world world' ↔ oldPassword ≠ autoPassword := by
  have hpath : opened.store.path = world.store.path := by rw [h.store]
  have hfile := hinstalled.file
  rw [hpath] at hfile hwritten
  have hnew := hfile.opensTo hC hinstalled.key
  constructor
  · rintro hmigrated rfl
    exact hmigrated.closed _ _ hnew
  · intro hne
    have hdata : snapshot.data = (migrateVaultData io.env.now data).1 := by rw [h.snapshot]
    have hclosed := hapart.not_opensTo hC hne hencrypt
    rw [hdata] at hnew
    rw [← hwritten] at hclosed
    exact ⟨⟨data, session, session', h.opensTo, hnew⟩, hclosed⟩

/-- **When a migration is safe.**  It has done what it is for when it succeeds, and nothing when it
fails, exactly when the unlocking fails; or the encryption after it succeeds, and the old password
is not the internal one; or it fails, and the unlocking had nothing to do. -/
theorem migrate_safe_iff (hC : C.Lawful)
    (hapart : ∀ snapshot opened, unlock C io oldPassword world = (.ok snapshot, opened) →
      PasswordsApart C io'.rng oldPassword snapshot.data) :
    MigrationSafe C io io' oldPassword world ↔ MigratesWhole C io io' oldPassword world := by
  rw [MigrationSafe, MigratesWhole]
  have hfirst := @unlock_spec C io world oldPassword
  rcases hunlock : unlock C io oldPassword world with ⟨e | snapshot, opened⟩
  · rw [migrate, Effect.bind_error hunlock]
    exact iff_of_true (hfirst.of_error hunlock) trivial
  · obtain ⟨encrypted, data, session, h⟩ := hfirst.of_ok hunlock
    rw [migrate_of_unlock hunlock h]
    have hsecond := @encryptFast_written C io' opened snapshot.data
    dsimp only
    rcases hencrypt : encryptFast C io' snapshot.data opened with ⟨e | _, after⟩
    · rw [Effect.bind_error hencrypt]
      exact h.failed_iff hC (hsecond.of_error hencrypt)
    · rw [Effect.bind_ok hencrypt]
      obtain ⟨encrypted', session', hseal, hwritten, hinstalled⟩ := hsecond.of_ok hencrypt
      exact h.migrated_iff hC (hapart snapshot opened hunlock) hseal hwritten hinstalled

/-! ### A workspace with a password -/

/-- The run below: a workspace is created with a password, and the program starts again. -/
def passwordRun : List StoreEvent :=
  [.create (keyedIo 1) "old-pass", .restart]

/-- The store is locked then, and the password opens its file. -/
theorem passwordRun_locked :
    ∃ world, (vaultStore keyedCrates "vault.rpvault").run passwordRun = some world ∧
      world.store = .new "vault.rpvault" ∧
      world.files "vault.rpvault" =
        some (encodeVault (keyedVault kdfParamsCurrent "old-pass" 1)) ∧
      world.files (tempPathFor "vault.rpvault" "0") = none := by
  obtain ⟨created, hrun, hcreated⟩ := @keyedAt_create kdfParamsCurrent "old-pass" 1 rfl rfl
  refine ⟨{ created with store := .new created.store.path }, ?_, ?_, hcreated.file, hcreated.free⟩
  · have happend : passwordRun = [.create (keyedIo 1) "old-pass"] ++ [.restart] := rfl
    rw [happend, Machine.run, Machine.runFrom_append, ← Machine.run, hrun]
    rfl
  · rw [hcreated.store]

theorem unlock_passwordRun {world : World} (hstore : world.store = .new "vault.rpvault")
    (hfile : world.files "vault.rpvault" =
      some (encodeVault (keyedVault kdfParamsCurrent "old-pass" 1))) :
    unlock keyedCrates (keyedIo 1) "old-pass" world =
      (.ok { data := exampleData none, revision := world.store.revision },
        { world with
          store :=
            { world.store with
              unlocked := some
                { data := exampleData none
                  crypto := keyedSession kdfParamsCurrent "old-pass" 1 } } }) := by
  have hpath : world.store.path = "vault.rpvault" := by
    rw [hstore]
    rfl
  obtain ⟨hdecode, hopens⟩ := @keyedVault_opens kdfParamsCurrent "old-pass" 1 (.inr rfl)
  exact unlock_eq rfl (hpath ▸ hfile) hdecode hopens
    ((normalized_withDefaultGroup "t" "g").migrateVaultData_eq "t")

theorem encryptFast_keyed :
    encryptWithPasswordFast keyedCrates (keyedIo 3).rng autoPassword (exampleData none) =
      .ok (keyedVault kdfParamsFast autoPassword 3, keyedSession kdfParamsFast autoPassword 3) :=
  rfl

theorem passwordsApart_keyed :
    PasswordsApart keyedCrates (keyedIo 3).rng "old-pass" (exampleData none) := by
  intro _ encrypted session key hencrypt hderive
  obtain ⟨rfl, rfl⟩ := Prod.mk.inj (Except.ok.inj (encryptFast_keyed.symm.trans hencrypt))
  obtain rfl := Except.ok.inj
    ((rfl : deriveKey keyedCrates "old-pass" (List.Vector.replicate 16 3) kdfParamsFast =
      .ok (keyedKey "old-pass" (List.Vector.replicate 16 3))).symm.trans hderive)
  exact keyedCrates_refuses _ (keyedVault_sealed kdfParamsFast autoPassword 3 _) (by decide)

/-- The workspace with the password is migrated. -/
theorem migrate_safe_passwordRun :
    ∃ world, (vaultStore keyedCrates "vault.rpvault").run passwordRun = some world ∧
      MigratesWhole keyedCrates (keyedIo 1) (keyedIo 3) "old-pass" world ∧
      MigrationSafe keyedCrates (keyedIo 1) (keyedIo 3) "old-pass" world := by
  obtain ⟨world, hrun, hstore, hfile, hfree⟩ := passwordRun_locked
  have hunlock := unlock_passwordRun hstore hfile
  have hpath : world.store.path = "vault.rpvault" := by
    rw [hstore]
    rfl
  have hapart : ∀ snapshot opened,
      unlock keyedCrates (keyedIo 1) "old-pass" world = (.ok snapshot, opened) →
        PasswordsApart keyedCrates (keyedIo 3).rng "old-pass" snapshot.data := by
    intro snapshot opened hopened
    rw [hunlock] at hopened
    obtain ⟨hsnapshot, -⟩ := Prod.mk.inj hopened
    obtain rfl := Except.ok.inj hsnapshot
    exact passwordsApart_keyed
  have hwhole : MigratesWhole keyedCrates (keyedIo 1) (keyedIo 3) "old-pass" world := by
    rw [MigratesWhole, hunlock]
    have hsucceeds := @encryptFast_succeeds keyedCrates (keyedIo 3)
      (unlock keyedCrates (keyedIo 1) "old-pass" world).2 _ _ encryptFast_keyed rfl
      (by rw [hunlock]; exact hpath ▸ hfree)
    rw [hunlock] at hsucceeds
    dsimp only at hsucceeds ⊢
    split
    · decide
    · rename_i hfails
      exact (hsucceeds.of_error hfails).elim
  exact ⟨world, hrun, hwhole,
    (migrate_safe_iff keyedCrates_lawful hapart).mpr hwhole⟩

/-- No file can be made. -/
def readOnlyIo : Io :=
  { keyedIo 3 with write := { openTemp := some "Read-only file system (os error 30)" } }

/-- **A migration that fails leaves the store unlocked.**  The store is locked, and the file cannot
be written; the old password opens the workspace, the migration fails, and the store is unlocked. -/
theorem migrate_leaves_unlocked :
    ∃ world e world', (vaultStore keyedCrates "vault.rpvault").run passwordRun = some world ∧
      migrate keyedCrates (keyedIo 1) readOnlyIo "old-pass" world = (.error e, world') ∧
      world.store.unlocked = none ∧ world'.store.unlocked ≠ none ∧
      ¬MigrationSafe keyedCrates (keyedIo 1) readOnlyIo "old-pass" world := by
  obtain ⟨world, hrun, hstore, hfile, _⟩ := passwordRun_locked
  have hlocked : world.store.unlocked = none := by
    rw [hstore]
    rfl
  have hunlock := unlock_passwordRun hstore hfile
  have hencrypt : encryptWithPasswordFast keyedCrates readOnlyIo.rng autoPassword
      (exampleData none) = .ok _ := encryptFast_keyed
  have hmigrate : ∃ e world', migrate keyedCrates (keyedIo 1) readOnlyIo "old-pass" world =
      (.error e, world') ∧ world'.store.unlocked ≠ none := by
    rw [migrate, Effect.bind_ok hunlock, Effect.bind_ok (unlockedVault_eq rfl)]
    dsimp only
    rw [encryptFast]
    exact ⟨_, _, Effect.bind_error (by rw [Effect.bind_ok (Effect.ofExcept_ok hencrypt)]; rfl),
      Option.some_ne_none _⟩
  obtain ⟨e, world', hmigrate, hunlocked⟩ := hmigrate
  refine ⟨world, e, world', hrun, hmigrate, hlocked, hunlocked, fun hsafe => ?_⟩
  rw [MigrationSafe, hmigrate] at hsafe
  have hsame : Untouched world world' := hsafe
  rw [hsame.store] at hunlocked
  exact hunlocked hlocked

end Vault
end HelmSsh
