/-
# A change of the workspace happens whole or not at all

What the methods of the store do.  `commit` encrypts the new data and writes them before they take
the place of the old ones, so that a failure anywhere leaves the store and its file `Untouched`,
and a success is a change of the data in memory and in the file (`commit_spec`).  When the session
is `Supported`, the change is `Committed`: the file holds the new data under the present key.

* `operate_perform` — the methods of `VaultOp` do so, and make of the data what
  `VaultOp.perform` makes of them; `mutation_spec` adds the imports.
* `create_spec`, `unlock_spec` and `encryptFast_spec` — what opens a workspace or gives it a new
  key either leaves a file for the data in memory, or nothing has changed.
* `operate_succeeds` — without a failure the methods of `VaultOp` succeed.
-/

import HelmSsh.Vault.Store

namespace HelmSsh
namespace Vault

open Config Crypto

variable {C : Crates} {io : Io} {world world' : World}

/-! ### What the parts do -/

theorem unlockedVault_post {ok : UnlockedVault → World → Prop} {err : AppError → World → Prop}
    (hok : ∀ unlocked, world.store.unlocked = some unlocked → ok unlocked world)
    (herr : ∀ e, err e world) : unlockedVault.Post world ok err := by
  refine .bind (.gets (.ofExcept (fun unlocked h => ?_) fun e _ => herr e))
  cases hstore : world.store.unlocked with
  | none =>
    rw [hstore] at h
    cases h
  | some unlocked' =>
    rw [hstore] at h
    obtain rfl := Except.ok.inj h
    exact hok _ hstore

theorem unlockedVault_eq {unlocked : UnlockedVault} (h : world.store.unlocked = some unlocked) :
    unlockedVault world = (.ok unlocked, world) := by
  have helim : world.store.unlocked.elim (Except.error AppError.vaultLocked) Except.ok =
      .ok unlocked := by
    rw [h]
    rfl
  exact Effect.ofExcept_ok helim

/-- The store and its file are as they were. -/
structure Untouched (world world' : World) : Prop where
  store : world'.store = world.store
  file : world'.files world.store.path = world.files world.store.path

theorem Untouched.refl (world : World) : Untouched world world := ⟨rfl, rfl⟩

/-- A write to the file of the store is complete or has not happened. -/
theorem writeEncrypted_post {encrypted : EncryptedVault} {ok : Unit → World → Prop}
    {err : AppError → World → Prop}
    (hok : ∀ files : Files, files world.store.path = some (encodeVault encrypted) →
      ok () { world with files := files })
    (herr : ∀ e world', Untouched world world' → err e world') :
    (writeEncrypted io encrypted).Post world ok err := by
  refine .bind (.gets (.within (writeAtomic_post.mono (fun _ files h => hok files h.1) ?_)))
  intro e files h
  exact herr e _ ⟨rfl, h _ (tempPathFor_ne _ _).symm⟩

/-- What a change leaves: other data of the same session, held by the file, the next
revision, and a snapshot of both. -/
structure Committed (C : Crates) (world : World) (unlocked : UnlockedVault) (data : VaultData)
    (snapshot : ConfigSnapshot) (world' : World) : Prop where
  store : world'.store =
    { path := world.store.path
      unlocked := some { data := data, crypto := unlocked.crypto }
      revision := saturatingSucc world.store.revision }
  file : FileHolds C unlocked.crypto data (world'.files world.store.path)
  snapshot : snapshot = { data := data, revision := saturatingSucc world.store.revision }

/-- A file that a session has encrypted the data to. -/
def SealedBy (C : Crates) (session : CryptoSession) (data : VaultData)
    (content : Option (List UInt8)) : Prop :=
  ∃ rng encrypted, encryptWithSession C rng session data = .ok encrypted ∧
    content = some (encodeVault encrypted)

theorem SealedBy.holds (hC : C.Lawful) {session : CryptoSession} {data : VaultData}
    {content : Option (List UInt8)} (hsupported : session.params.argon2 C = .ok ())
    (h : SealedBy C session data content) : FileHolds C session data content := by
  obtain ⟨rng, encrypted, hencrypt, rfl⟩ := h
  obtain ⟨hsame, hlen, hdata⟩ := encryptWithSession_decrypts hC hencrypt
  exact fileHolds_encodeVault hsupported hsame hlen hdata

/-- What a change leaves, with the file as it was written. -/
structure Changed (C : Crates) (world : World) (unlocked : UnlockedVault) (data : VaultData)
    (snapshot : ConfigSnapshot) (world' : World) : Prop where
  store : world'.store =
    { path := world.store.path
      unlocked := some { data := data, crypto := unlocked.crypto }
      revision := saturatingSucc world.store.revision }
  file : SealedBy C unlocked.crypto data (world'.files world.store.path)
  snapshot : snapshot = { data := data, revision := saturatingSucc world.store.revision }

theorem Changed.committed (hC : C.Lawful) {unlocked : UnlockedVault} {data : VaultData}
    {snapshot : ConfigSnapshot} (hsupported : unlocked.crypto.params.argon2 C = .ok ())
    (h : Changed C world unlocked data snapshot world') :
    Committed C world unlocked data snapshot world' :=
  ⟨h.store, h.file.holds hC hsupported, h.snapshot⟩

theorem commit_spec {unlocked : UnlockedVault} {data : VaultData} :
    (commit C io unlocked data).Post world
      (fun snapshot world' => Changed C world unlocked data snapshot world')
      fun _ world' => Untouched world world' := by
  refine .bind (.ofExcept (fun encrypted hencrypt => ?_) fun _ _ => .refl world)
  refine .bind (writeEncrypted_post (fun files hfile => ?_) fun _ _ h => h)
  exact .bind (.modify (.bind (.modify (.gets ⟨rfl, ⟨_, encrypted, hencrypt, hfile⟩, rfl⟩))))

/-! ### The operations -/

/-- `mutate` changes the data by `update`, and stamps them. -/
theorem mutate_spec {update : VaultData → AppResult VaultData} :
    (mutate C io update).Post world
      (fun snapshot world' => ∃ unlocked data, world.store.unlocked = some unlocked ∧
        update unlocked.data = .ok data ∧
        Changed C world unlocked (data.touch io.env.now) snapshot world')
      fun _ world' => Untouched world world' := by
  refine .bind (unlockedVault_post (fun unlocked hunlocked => ?_) fun _ => .refl world)
  refine .bind (.ofExcept (fun data hdata => ?_) fun _ _ => .refl world)
  refine commit_spec.mono (fun snapshot world' h => ?_) fun _ _ h => h
  exact ⟨unlocked, data, hunlocked, hdata, h⟩

/-- **The methods perform the operations of a workspace**: the data after a success are
those that `VaultOp.perform` makes of the data before it. -/
theorem operate_perform (op : VaultOp) :
    (operate C io op).Post world
      (fun snapshot world' => ∃ unlocked data, world.store.unlocked = some unlocked ∧
        op.perform io.env unlocked.data = .ok data ∧ snapshot.data = data ∧
        (world' = world ∧ data = unlocked.data ∧ snapshot.revision = world.store.revision ∨
          Changed C world unlocked data snapshot world'))
      fun _ world' => Untouched world world' := by
  refine .bind (.ofExcept (fun _ hcheck => ?_) fun _ _ => .refl world)
  refine .bind (unlockedVault_post (fun unlocked hunlocked => ?_) fun _ => .refl world)
  split_ifs with hnoop
  · refine .gets ⟨unlocked, unlocked.data, hunlocked, ?_, rfl, .inl ⟨rfl, rfl, rfl⟩⟩
    rw [VaultOp.perform, hcheck, if_pos hnoop]
    rfl
  · refine mutate_spec.mono (fun snapshot world' h => ?_) fun _ _ h => h
    obtain ⟨unlocked', data, hunlocked', hdata, hchange⟩ := h
    rw [hunlocked] at hunlocked'
    obtain rfl := Option.some.inj hunlocked'
    refine ⟨unlocked, data.touch io.env.now, hunlocked, ?_, ?_, .inr hchange⟩
    · rw [VaultOp.perform, hcheck, if_neg hnoop, hdata]
      rfl
    · rw [hchange.snapshot]

/-- The import of a package changes the data to those of the package, brought up to date, or
nothing. -/
theorem backupImportBytes_spec (bytes : List UInt8) :
    (backupImportBytes C io bytes).Post world
      (fun snapshot world' => ∃ unlocked data, world.store.unlocked = some unlocked ∧
        Changed C world unlocked (migrateVaultData io.env.now data).1 snapshot world')
      fun _ world' => Untouched world world' := by
  refine .bind (.ofExcept (fun payload _ => ?_) fun _ _ => .refl world)
  refine .bind (.ofExcept (fun encrypted _ => ?_) fun _ _ => .refl world)
  refine .bind (unlockedVault_post (fun unlocked hunlocked => ?_) fun _ => .refl world)
  refine .bind (.ofExcept (fun data _ => ?_) fun _ _ => .refl world)
  exact commit_spec.mono (fun snapshot world' h => ⟨unlocked, data, hunlocked, h⟩) fun _ _ h => h

theorem readFile_post {path : String} {ok : List UInt8 → World → Prop}
    {err : AppError → World → Prop} (hok : ∀ content, world.files path = some content →
      ok content world)
    (herr : ∀ e, err e world) : (readFile io path).Post world ok err := by
  refine .bind (.gets (.bind (.ofExcept (fun content hcontent => ?_) fun e _ => herr e)))
  refine .bind (sysCall_post (fun _ => .pure (hok content ?_)) herr)
  obtain ⟨content', hfile, heq⟩ := elim_ok hcontent
  rw [hfile, Except.ok.inj heq]

/-- The operations that change the data of an unlocked workspace. -/
inductive Mutation where
  | operate (op : VaultOp)
  | backupImport (path : String)
  | backupImportBytes (bytes : List UInt8)

/-- The method of a mutation. -/
def Mutation.run (C : Crates) (io : Io) : Mutation → Method ConfigSnapshot
  | .operate op => Vault.operate C io op
  | .backupImport path => Vault.backupImport C io path
  | .backupImportBytes bytes => Vault.backupImportBytes C io bytes

/-- What a mutation makes of the data: what its operation does, or data that were read and
brought up to date. -/
def Mutation.Gives (env : Env) (data data' : VaultData) : Mutation → Prop
  | .operate op => op.perform env data = .ok data'
  | .backupImport _ | .backupImportBytes _ => ∃ read, data' = (migrateVaultData env.now read).1

/-- **A mutation happens whole or not at all**: the data after a success are those that it gives,
and the snapshot shows them. -/
theorem mutation_spec (mutation : Mutation) :
    (mutation.run C io).Post world
      (fun snapshot world' => ∃ unlocked data, world.store.unlocked = some unlocked ∧
        mutation.Gives io.env unlocked.data data ∧ snapshot.data = data ∧
        (world' = world ∧ data = unlocked.data ∧ snapshot.revision = world.store.revision ∨
          Changed C world unlocked data snapshot world'))
      fun _ world' => Untouched world world' := by
  have himported : ∀ bytes, (Vault.backupImportBytes C io bytes).Post world
      (fun snapshot world' => ∃ unlocked data, world.store.unlocked = some unlocked ∧
        (∃ read, data = (migrateVaultData io.env.now read).1) ∧ snapshot.data = data ∧
        (world' = world ∧ data = unlocked.data ∧ snapshot.revision = world.store.revision ∨
          Changed C world unlocked data snapshot world'))
      fun _ world' => Untouched world world' := by
    intro bytes
    refine (backupImportBytes_spec bytes).mono (fun snapshot world' h => ?_) fun _ _ h => h
    obtain ⟨unlocked, read, hunlocked, hchange⟩ := h
    refine ⟨unlocked, _, hunlocked, ⟨read, rfl⟩, ?_, .inr hchange⟩
    rw [hchange.snapshot]
  cases mutation with
  | operate op => exact operate_perform op
  | backupImport path =>
    refine .bind (readFile_post (fun content _ => ?_) fun _ => .refl world)
    exact .bind (.ofExcept (fun payload _ => himported payload) fun _ _ => .refl world)
  | backupImportBytes bytes => exact himported bytes

/-- A supported session. -/
def Supported (C : Crates) (world : World) : Prop :=
  ∀ unlocked, world.store.unlocked = some unlocked → unlocked.crypto.params.argon2 C = .ok ()

/-- A mutation leaves everything as it was, or commits other data. -/
theorem mutation_post (hC : C.Lawful) (hsupported : Supported C world) (mutation : Mutation) :
    (mutation.run C io).Post world
      (fun snapshot world' => world' = world ∨ ∃ unlocked data,
        world.store.unlocked = some unlocked ∧ Committed C world unlocked data snapshot world')
      fun _ world' => Untouched world world' := by
  refine (mutation_spec mutation).mono (fun snapshot world' h => ?_) fun _ _ h => h
  obtain ⟨unlocked, data, hunlocked, _, _, ⟨hsame, _, _⟩ | hchange⟩ := h
  · exact .inl hsame
  · exact .inr ⟨unlocked, data, hunlocked, hchange.committed hC (hsupported unlocked hunlocked)⟩

/-! ### Opening -/

/-- What data leave that were encrypted under a session of their own. -/
structure Installed (C : Crates) (masterPassword : String) (world : World) (data : VaultData)
    (session : CryptoSession) (world' : World) : Prop where
  key : KeyOf C masterPassword session
  store : world'.store = { world.store with unlocked := some { data := data, crypto := session } }
  file : SealedBy C session data (world'.files world.store.path)

/-- What `create` does: there was no file, and now there is one of a new workspace. -/
theorem create_spec (masterPassword : String) :
    (create C io masterPassword).Post world
      (fun snapshot world' => world.files world.store.path = none ∧ ∃ session,
        Installed C masterPassword world (.withDefaultGroup io.env.now io.env.newId)
          session world' ∧
          snapshot =
            { data := .withDefaultGroup io.env.now io.env.newId
              revision := world'.store.revision })
      fun _ world' => Untouched world world' := by
  refine .bind (.gets (.bind (.ofExcept (fun _ hnew => ?_) fun _ _ => .refl world)))
  refine .bind (.ofExcept (fun encrypted hencrypt => ?_) fun _ _ => .refl world)
  obtain ⟨params, hparams⟩ : ∃ params, encryptWithParams C params io.rng masterPassword
      (VaultData.withDefaultGroup io.env.now io.env.newId) = .ok encrypted := by
    split_ifs at hencrypt
    · exact ⟨_, hencrypt⟩
    · exact ⟨_, hencrypt⟩
  obtain ⟨hkey, _, _, hseal⟩ := encryptWithParams_session hparams
  refine .bind (writeEncrypted_post (fun files hfile => ?_) fun _ _ h => h)
  have hnone : world.files world.store.path = none := not_not.mp (refuse_ok hnew)
  exact .bind (.modify (.gets ⟨hnone, encrypted.2, ⟨hkey, rfl, _, encrypted.1, hseal, hfile⟩, rfl⟩))

/-- What `unlock` leaves of a file that the password opens. -/
structure Opened (C : Crates) (io : Io) (masterPassword : String) (world : World)
    (encrypted : EncryptedVault) (data : VaultData) (session : CryptoSession)
    (snapshot : ConfigSnapshot) (world' : World) : Prop where
  content : ∃ content, world.files world.store.path = some content ∧
    decodeVault C content = .ok encrypted
  opens : decryptWithPassword C masterPassword encrypted = .ok (data, session)
  store : world'.store =
    { world.store with
      unlocked := some { data := (migrateVaultData io.env.now data).1, crypto := session } }
  snapshot : snapshot =
    { data := (migrateVaultData io.env.now data).1, revision := world.store.revision }
  /-- The file is as it was, or holds the data that were migrated. -/
  file : (migrateVaultData io.env.now data).2 = false ∧ world'.files = world.files ∨
    (migrateVaultData io.env.now data).2 = true ∧
      SealedBy C session (migrateVaultData io.env.now data).1 (world'.files world.store.path)

/-- What `unlock` does. -/
theorem unlock_spec (masterPassword : String) :
    (unlock C io masterPassword).Post world
      (fun snapshot world' => ∃ encrypted data session,
        Opened C io masterPassword world encrypted data session snapshot world')
      fun _ world' => Untouched world world' := by
  refine .bind (.bind (.gets (.bind (readFile_post (fun content hcontent => ?_) ?_))))
  · refine .ofExcept (fun encrypted hdecode => ?_) fun _ _ => .refl world
    refine .bind (.ofExcept (fun opened hopen => ?_) fun _ _ => .refl world)
    obtain ⟨data, session⟩ := opened
    refine .bind ?_
    rw [writeMigrated]
    split_ifs with hmigrated
    · refine .bind (.ofExcept (fun rewritten hencrypt => ?_) fun _ _ => .refl world)
      refine writeEncrypted_post (fun files hwritten => ?_) fun _ _ h => h
      exact .bind (.modify (.gets ⟨encrypted, data, session, ⟨content, hcontent, hdecode⟩, hopen,
        rfl, rfl, .inr ⟨hmigrated, _, rewritten, hencrypt, hwritten⟩⟩))
    · exact .pure (.bind (.modify (.gets ⟨encrypted, data, session,
        ⟨content, hcontent, hdecode⟩, hopen, rfl, rfl,
        .inl ⟨Bool.not_eq_true _ ▸ hmigrated, rfl⟩⟩)))
  · exact fun _ => .refl world

/-- What the encryption under the internal password does. -/
theorem encryptFast_spec (data : VaultData) :
    (encryptFast C io data).Post world
      (fun _ world' => ∃ session, session.params = kdfParamsFast ∧ session.salt = io.rng.salt ∧
        Installed C autoPassword world data session world')
      fun _ world' => Untouched world world' := by
  refine .bind (.ofExcept (fun encrypted hencrypt => ?_) fun _ _ => .refl world)
  obtain ⟨hkey, hparams, hsalt, hseal⟩ := encryptWithParams_session hencrypt
  refine .bind (writeEncrypted_post (fun files hfile => ?_) fun _ _ h => h)
  exact .modify ⟨encrypted.2, hparams, hsalt, hkey, rfl, _, encrypted.1, hseal, hfile⟩

/-! ### Without a failure -/

theorem operate_succeeds {op : VaultOp} {unlocked : UnlockedVault} {data : VaultData}
    {encrypted : EncryptedVault} (hcheck : op.check = .ok ())
    (hunlocked : world.store.unlocked = some unlocked) (hnoop : op.isNoop unlocked.data = false)
    (hupdate : op.update io.env unlocked.data = .ok data)
    (hencrypt : encryptWithSession C io.rng unlocked.crypto (data.touch io.env.now) = .ok encrypted)
    (hwrite : io.write = {})
    (hfree : world.files (tempPathFor world.store.path io.tempId) = none) :
    (operate C io op).Post world
      (fun _ world' =>
        world'.store =
          { path := world.store.path
            unlocked := some { unlocked with data := data.touch io.env.now }
            revision := saturatingSucc world.store.revision } ∧
          world'.files (tempPathFor world.store.path io.tempId) = none)
      fun _ _ => False := by
  have hvault : ∀ {ok : UnlockedVault → World → Prop} {err : AppError → World → Prop},
      ok unlocked world → unlockedVault.Post world ok err := by
    intro ok err h
    refine .bind (.gets (.ofEqOk ?_ h))
    rw [hunlocked]
    rfl
  refine .bind (.ofEqOk hcheck (.bind (hvault ?_)))
  rw [if_neg (Bool.eq_false_iff.mp hnoop)]
  refine .bind (hvault (.bind (.ofEqOk hupdate (.bind (.ofEqOk hencrypt ?_)))))
  refine .bind (.bind (.gets (.within ?_)))
  rw [hwrite]
  refine (writeAtomic_succeeds hfree).mono (fun _ files h => ?_) fun _ _ h => h
  exact .bind (.modify (.bind (.modify (.gets ⟨rfl, h.2⟩))))

/-- A file that the password opens, and that is up to date, is unlocked as it is. -/
theorem unlock_eq {masterPassword : String} {content : List UInt8} {encrypted : EncryptedVault}
    {data : VaultData} {session : CryptoSession} (hread : io.read = none)
    (hcontent : world.files world.store.path = some content)
    (hdecode : decodeVault C content = .ok encrypted)
    (hopens : decryptWithPassword C masterPassword encrypted = .ok (data, session))
    (hmigrated : migrateVaultData io.env.now data = (data, false)) :
    unlock C io masterPassword world =
      (.ok { data := data, revision := world.store.revision },
        { world with
          store :=
            { world.store with unlocked := some { data := data, crypto := session } } }) := by
  have hexists : (world.files world.store.path).elim
    (Except.error AppError.vaultNotFound) Except.ok =
      .ok content := by
    rw [hcontent]
    rfl
  have hfile : readFile io world.store.path world = (.ok content, world) := by
    rw [readFile]
    show (Effect.ofExcept _ >>= _) world = _
    rw [Effect.bind_ok (Effect.ofExcept_ok hexists), hread]
    rfl
  have hencrypted : readEncrypted C io world = (.ok encrypted, world) := by
    show (readFile io world.store.path >>= _) world = _
    rw [Effect.bind_ok hfile]
    exact Effect.ofExcept_ok hdecode
  rw [unlock, Effect.bind_ok hencrypted, Effect.bind_ok (Effect.ofExcept_ok hopens)]
  dsimp only
  rw [hmigrated]
  rfl

/-- The encryption under the internal password succeeds without a failure. -/
theorem encryptFast_succeeds {data : VaultData} {sealed : EncryptedVault × CryptoSession}
    (hencrypt : encryptWithPasswordFast C io.rng autoPassword data = .ok sealed)
    (hwrite : io.write = {})
    (hfree : world.files (tempPathFor world.store.path io.tempId) = none) :
    (encryptFast C io data).Post world
      (fun _ world' => world'.store =
        { world.store with unlocked := some { data := data, crypto := sealed.2 } })
      fun _ _ => False := by
  refine .bind (.ofEqOk hencrypt (.bind (.bind (.gets (.within ?_)))))
  rw [hwrite]
  exact (writeAtomic_succeeds hfree).mono (fun _ _ _ => .modify rfl) fun _ _ h => h

/-- The workspace of a file that is up to date gets a new key without a failure. -/
theorem migrate_succeeds {io' : Io} {masterPassword : String} {content : List UInt8}
    {encrypted : EncryptedVault} {data : VaultData} {session : CryptoSession}
    {sealed : EncryptedVault × CryptoSession} (hread : io.read = none)
    (hcontent : world.files world.store.path = some content)
    (hdecode : decodeVault C content = .ok encrypted)
    (hopens : decryptWithPassword C masterPassword encrypted = .ok (data, session))
    (hmigrated : migrateVaultData io.env.now data = (data, false))
    (hencrypt : encryptWithPasswordFast C io'.rng autoPassword data = .ok sealed)
    (hwrite : io'.write = {})
    (hfree : world.files (tempPathFor world.store.path io'.tempId) = none) :
    (migrate C io io' masterPassword).Post world
      (fun _ world' => world'.store =
        { world.store with unlocked := some { data := data, crypto := sealed.2 } })
      fun _ _ => False := by
  refine .bind (.of_eq (unlock_eq hread hcontent hdecode hopens hmigrated) ?_)
  refine .bind (.of_eq (unlockedVault_eq rfl) ?_)
  have hrekey := @encryptFast_succeeds C io'
    { world with
      store := { world.store with unlocked := some { data := data, crypto := session } } }
    data sealed hencrypt hwrite hfree
  exact .bind (hrekey.mono (fun _ _ h => .gets h) fun _ _ h => h)

/-- A new workspace is created without a failure, and no temporary file is left. -/
theorem create_succeeds {params : KdfParams} {masterPassword : String}
    {sealed : EncryptedVault × CryptoSession}
    (hnone : world.files world.store.path = none)
    (hparams : params = if masterPassword = autoPassword then kdfParamsFast else kdfParamsCurrent)
    (hencrypt : encryptWithParams C params io.rng masterPassword
      (.withDefaultGroup io.env.now io.env.newId) = .ok sealed)
    (hwrite : io.write = {})
    (hfree : world.files (tempPathFor world.store.path io.tempId) = none) :
    (create C io masterPassword).Post world
      (fun _ world' =>
        world'.store =
          { world.store with
            unlocked := some
              { data := .withDefaultGroup io.env.now io.env.newId, crypto := sealed.2 } } ∧
          world'.files world.store.path = some (encodeVault sealed.1) ∧
          world'.files (tempPathFor world.store.path io.tempId) = none)
      fun _ _ => False := by
  have hseal : (if masterPassword = autoPassword then
      encryptWithPasswordFast C io.rng masterPassword (.withDefaultGroup io.env.now io.env.newId)
      else encryptWithPassword C io.rng masterPassword
        (.withDefaultGroup io.env.now io.env.newId)) = .ok sealed := by
    rw [hparams] at hencrypt
    split_ifs at hencrypt ⊢
    · exact hencrypt
    · exact hencrypt
  have hnew : refuse (world.files world.store.path ≠ none) AppError.vaultAlreadyExists =
      .ok () := if_neg (not_not.mpr hnone)
  refine .bind (.gets (.bind (.ofEqOk hnew (.bind (.ofEqOk hseal (.bind (.bind (.gets
    (.within ?_)))))))))
  rw [hwrite]
  refine (writeAtomic_succeeds hfree).mono (fun _ files h => ?_) fun _ _ h => h
  exact .bind (.modify (.gets ⟨rfl, h.1, h.2⟩))

end Vault
end HelmSsh
