/-
# The states of the workspace store

`Sound` is what holds in every state that the store can be in: when it is unlocked, the
parameters of its session are ones that `decode_vault` supports, and the file of the store
holds the data in memory (`sound_of_run`).  Every method keeps it, whatever fails in it.

`vault_commit_atomic`: in every such state, an operation that fails leaves the data, the
revision and the file as they were; one that succeeds leaves everything as it was, or data
that the file holds under the present key, and the revision after.  The revision
saturates (`saturating_add`), so that at the largest one a change does not advance it
(`revision_saturates`).
-/

import HelmSsh.Vault.Moves

namespace HelmSsh
namespace Vault

open Config Crypto

variable {C : Crates} {io : Io} {world world' : World}

/-! ### The states of the store -/

/-- The store is one of the file at `path`: when it is unlocked, its session is supported,
and the file holds its data. -/
structure Sound (C : Crates) (path : String) (world : World) : Prop where
  atPath : world.store.path = path
  supported : Supported C world
  file : ∀ unlocked, world.store.unlocked = some unlocked →
    FileHolds C unlocked.crypto unlocked.data (world.files path)

variable {path : String} {opens : String → World → Prop}

theorem sound_locked {store : VaultStore} {files : Files} (hpath : store.path = path)
    (h : store.unlocked = none) : Sound C path { store := store, files := files } where
  atPath := hpath
  supported := fun unlocked hunlocked => by cases h.symm.trans hunlocked
  file := fun unlocked hunlocked => by cases h.symm.trans hunlocked

theorem Sound.untouched (h : Sound C path world) (hsame : Untouched world world') :
    Sound C path world' where
  atPath := by rw [hsame.store, h.atPath]
  supported := by
    intro unlocked hunlocked
    rw [hsame.store] at hunlocked
    exact h.supported unlocked hunlocked
  file := by
    intro unlocked hunlocked
    have hfile := hsame.file
    rw [hsame.store] at hunlocked
    rw [h.atPath] at hfile
    rw [hfile]
    exact h.file unlocked hunlocked

/-- A store that takes up a supported session and data that the file holds is sound. -/
theorem sound_setUnlocked {files : Files} {u : UnlockedVault}
    (hpath : world.store.path = path) (hparams : u.crypto.params.argon2 C = .ok ())
    (hfile : FileHolds C u.crypto u.data (files path)) :
    Sound C path
      { store := { world.store with unlocked := some u }, files := files } where
  atPath := hpath
  supported := by
    intro unlocked' hunlocked
    obtain rfl := Option.some.inj hunlocked
    exact hparams
  file := by
    intro unlocked' hunlocked
    obtain rfl := Option.some.inj hunlocked
    exact hfile

theorem Sound.committed (h : Sound C path world) {unlocked : UnlockedVault} {data : VaultData}
    {snapshot : ConfigSnapshot} (hunlocked : world.store.unlocked = some unlocked)
    (hcommit : Committed C world unlocked data snapshot world') : Sound C path world' where
  atPath := by rw [hcommit.store, h.atPath]
  supported := by
    intro unlocked' hunlocked'
    rw [hcommit.store] at hunlocked'
    obtain rfl := Option.some.inj hunlocked'
    exact h.supported unlocked hunlocked
  file := by
    intro unlocked' hunlocked'
    rw [hcommit.store] at hunlocked'
    obtain rfl := Option.some.inj hunlocked'
    have hfile := hcommit.file
    rw [h.atPath] at hfile
    exact hfile

theorem Installed.sound (hC : C.Lawful) (hpath : world.store.path = path) {masterPassword : String}
    {data : VaultData} {session : CryptoSession}
    (h : Installed C masterPassword world data session world') : Sound C path world' := by
  have hsupported := deriveKey_ok h.key
  have hfile := h.file.holds hC hsupported
  rw [hpath] at hfile
  have hsound := sound_setUnlocked (u := ⟨data, session⟩) hpath hsupported hfile
  rw [← h.store] at hsound
  exact hsound

theorem migrateVaultData_eq {now : String} {data : VaultData}
    (h : (migrateVaultData now data).2 = false) : (migrateVaultData now data).1 = data := by
  rw [migrateVaultData] at h ⊢
  split_ifs at h ⊢
  rfl

theorem Opened.sound (hC : C.Lawful) (hpath : world.store.path = path) {masterPassword : String}
    {encrypted : EncryptedVault} {data : VaultData} {session : CryptoSession}
    {snapshot : ConfigSnapshot}
    (h : Opened C io masterPassword world encrypted data session snapshot world') :
    Sound C path world' := by
  obtain ⟨hparams, hdata⟩ := decryptWithPassword_ok h.opens
  have hfile : FileHolds C session (migrateVaultData io.env.now data).1 (world'.files path) := by
    rcases h.file with ⟨hsame, hfiles⟩ | ⟨_, hsealed⟩
    · obtain ⟨content, hcontent, hdecode⟩ := h.content
      rw [migrateVaultData_eq hsame, hfiles, ← hpath]
      exact ⟨content, encrypted, hcontent, hdecode, hdata⟩
    · rw [← hpath]
      exact hsealed.holds hC hparams
  have hsound := sound_setUnlocked
    (u := ⟨(migrateVaultData io.env.now data).1, session⟩) hpath hparams hfile
  rw [← h.store] at hsound
  exact hsound

/-- **A move keeps the store sound.** -/
theorem Sound.move (hC : C.Lawful) (h : Sound C path world) (hmove : Move C opens world world') :
    Sound C path world' := by
  cases hmove with
  | untouched hsame => exact h.untouched hsame
  | created masterPassword env session hnone hinstalled => exact hinstalled.sound hC h.atPath
  | opened io masterPassword encrypted data session snapshot _ hopened =>
    exact hopened.sound hC h.atPath
  | changed env mutation unlocked data snapshot hunlocked hgives hchange =>
    exact h.committed hunlocked (hchange.committed hC (h.supported unlocked hunlocked))

theorem Sound.rekey (hC : C.Lawful) (h : Sound C path world) (hrekey : Rekey C world world') :
    Sound C path world' := by
  obtain ⟨unlocked, session, _, hinstalled⟩ := hrekey
  exact hinstalled.sound hC h.atPath

theorem Sound.moves {rekeys : Prop} (hC : C.Lawful) (h : Sound C path world)
    (hmoves : Moves C opens rekeys world world') : Sound C path world' :=
  hmoves.keeps (fun _ _ hs => hs.move hC) (fun _ _ _ hs => hs.rekey hC) h

/-! ### Runs -/

/-- **One step keeps the store sound.** -/
theorem Sound.step (hC : C.Lawful) {event : StoreEvent} (h : Sound C path world)
    (hstep : (vaultStore C path).step world event = some world') : Sound C path world' := by
  rcases moves_of_step hstep with hrestart | ⟨_, removed, _, hremoved, hmove⟩ | hmoves
  · exact sound_locked (by rw [hrestart.store, VaultStore.new, h.atPath])
      (by rw [hrestart.store, VaultStore.new])
  · have hnew : Sound C path removed :=
      sound_locked (by rw [hremoved.store, VaultStore.new, h.atPath])
        (by rw [hremoved.store, VaultStore.new])
    exact hnew.move hC hmove
  · exact h.moves hC hmoves

/-- **Memory and file agree** in every state that the store can be in. -/
theorem sound_of_run (hC : C.Lawful) {events : List StoreEvent}
    (h : (vaultStore C path).run events = some world) : Sound C path world :=
  Machine.run_invariant (sound_locked rfl rfl) (fun _ _ _ hs hstep => hs.step hC hstep) h

/-- **A change of the workspace happens whole or not at all.**  In every state of the
store, an operation that fails leaves the data, the revision and the file as they were;
one that succeeds leaves everything as it was, or data that the file holds under the
present key, and the revision after, unless that one is the largest already. -/
theorem vault_commit_atomic (hC : C.Lawful) {events : List StoreEvent}
    (h : (vaultStore C path).run events = some world) (io : Io) (mutation : Mutation) :
    (mutation.run C io).Post world
      (fun snapshot world' => world' = world ∨ ∃ unlocked data,
        world.store.unlocked = some unlocked ∧ Committed C world unlocked data snapshot world')
      fun _ world' => Untouched world world' :=
  mutation_post hC (sound_of_run hC h).supported mutation

/-! ### The largest revision -/

/-- A new workspace with an API key, for the runs below. -/
def exampleData (key : Option String) : VaultData :=
  { VaultData.withDefaultGroup "t" "g" with settings := { aiApiKey := key } }

/-- Its JSON, with the JSON of the key. -/
@[irreducible] def exampleText (key : String) : String :=
    "\x7b\"version\":2,\"groups\":[\x7b\"id\":\"g\",\"name\":\"默认分组\",\"parentId\":null," ++
    "\"sortOrder\":0,\"createdAt\":\"t\",\"updatedAt\":\"t\"\x7d],\"sessions\":[],\"known" ++
    "Hosts\":[],\"settings\":\x7b\"proxy\":null,\"backup\":\x7b\"localDirectory\":null,\"" ++
    "autoEnabled\":false,\"frequency\":\"daily\",\"retentionCount\":10,\"retentionDays\":" ++
    "30,\"cloud\":\x7b\"enabled\":false,\"autoEnabled\":false,\"kind\":\"webdav\",\"webda" ++
    "v\":\x7b\"endpoint\":\"\",\"username\":\"\",\"password\":\"\",\"remotePath\":\"\"" ++
    "\x7d,\"s3\":\x7b\"endpoint\":\"\",\"region\":\"us-east-1\",\"bucket\":\"\",\"accessK" ++
    "eyId\":\"\",\"secretAccessKey\":\"\",\"prefix\":\"\",\"pathStyle\":false\x7d\x7d\x7d" ++
    ",\"quickCommands\":[],\"ignoredUpdateVersions\":[],\"aiApiKey\":" ++
    key ++
    ",\"aiApiSessionId\":null,\"aiApiSessionIds\":[],\"aiApiPort\":null,\"aiApiAutoStart" ++
    "\":false,\"collapsedConnectionSectionIds\":[]\x7d,\"tunnels\":[],\"backupRecords\":[" ++
    "],\"updatedAt\":\"t\"\x7d"

/-- The bytes of the JSON. -/
def exampleJson (key : String) : List UInt8 :=
  (exampleText key).toUTF8.data.toList

theorem exampleJson_inj {key key' : String} (h : exampleJson key = exampleJson key') :
    key = key' := by
  rw [exampleJson, exampleJson, Array.toList_inj] at h
  have htext := String.toByteArray_inj.mp (ByteArray.ext h)
  unfold exampleText at htext
  simpa only [String.append_right_inj, String.append_left_inj] using htext

/-- The crates, on the data of the runs below: the JSON is the real one, the cipher adds
sixteen zero bytes, and every key is zero. -/
def exampleCrates : Crates where
  paramsNew params :=
    if params.mCostKib < 8 * params.parallelism then .error "memory cost is too small" else .ok ()
  hashPasswordInto _ _ _ := .ok (List.Vector.replicate 32 0)
  encrypt _ _ msg _ := some (msg ++ List.replicate 16 0)
  decrypt _ _ ciphertext _ :=
    if List.replicate 16 0 <:+ ciphertext then some (ciphertext.take (ciphertext.length - 16))
    else none
  toVec data :=
    if data = exampleData none then .ok (exampleJson "null")
    else if data = exampleData (some "sk") then .ok (exampleJson "\"sk\"")
    else .error "unknown"
  fromSlice content :=
    if content = exampleJson "null" then some (exampleData none)
    else if content = exampleJson "\"sk\"" then some (exampleData (some "sk"))
    else none
  unzip _ := .invalid "invalid Zip archive"

/-- The crates of the runs below do what the source relies on. -/
theorem exampleCrates_lawful : exampleCrates.Lawful where
  decrypt_encrypt := by
    intro key nonce msg aad ciphertext h
    obtain rfl := Option.some.inj h
    show (if List.replicate 16 0 <:+ msg ++ List.replicate 16 (0 : UInt8) then _ else _) = _
    rw [if_pos (List.suffix_append _ _), List.length_append, List.length_replicate,
      Nat.add_sub_cancel, List.take_left]
  length_encrypt := by
    intro key nonce msg aad ciphertext h
    obtain rfl := Option.some.inj h
    rw [List.length_append, List.length_replicate]
  fromSlice_toVec := by
    intro data content h
    have hne : exampleJson "\"sk\"" ≠ exampleJson "null" := fun heq =>
      absurd (exampleJson_inj heq) (by decide)
    simp only [exampleCrates] at h ⊢
    split_ifs at h with hnone hkey
    · rw [← Except.ok.inj h, if_pos rfl, hnone]
    · rw [← Except.ok.inj h, if_neg hne, if_pos rfl, hkey]

/-- No failure and fixed random bytes, for the runs below. -/
def exampleIo : Io where
  env := exampleEnv "g"
  rng := { salt := List.Vector.replicate 16 1, nonce := List.Vector.replicate 24 2 }
  tempId := "0"

/-- The session of the runs below. -/
def exampleCrypto : CryptoSession where
  key := List.Vector.replicate 32 0
  salt := List.Vector.replicate 16 1
  params := kdfParamsFast

/-- The store of the runs below, with data and a revision. -/
def exampleStore (key : Option String) (revision : UInt64) : VaultStore where
  path := "vault.rpvault"
  unlocked := some { data := exampleData key, crypto := exampleCrypto }
  revision := revision

/-- The store of the runs below is in this state, with no temporary file left behind. -/
def ExampleAt (key : Option String) (revision : UInt64) (world : World) : Prop :=
  world.store = exampleStore key revision ∧
    world.files (tempPathFor "vault.rpvault" "0") = none

/-- Some events lead to a store without a key and with the revision. -/
def ExampleReaches (revision : UInt64) : Prop :=
  ∃ events world, (vaultStore exampleCrates "vault.rpvault").run events = some world ∧
    ExampleAt none revision world

theorem exampleReaches_zero : ExampleReaches 0 :=
  ⟨[.create exampleIo autoPassword], _, rfl, rfl, rfl⟩

/-- From a state of the runs below, the API key is set. -/
theorem setKey_post {key : Option String} {revision : UInt64} (hkey : key = none ∨ key = some "sk")
    (hworld : ExampleAt none revision world) {err : AppError → World → Prop} :
    ((Mutation.operate (.settingsAiApiKeyUpdate key)).run exampleCrates exampleIo).Post world
      (fun _ => ExampleAt key (saturatingSucc revision)) err := by
  obtain ⟨hstore, hfree⟩ := hworld
  have hunlocked : world.store.unlocked =
      some { data := exampleData none, crypto := exampleCrypto } := by
    rw [hstore]
    rfl
  have hpath : world.store.path = "vault.rpvault" := by
    rw [hstore]
    rfl
  have hrevision : world.store.revision = revision := by
    rw [hstore]
    rfl
  rcases hkey with rfl | rfl
  all_goals
    refine (operate_succeeds rfl hunlocked rfl rfl rfl rfl ?_).mono (fun _ world' h => ?_) ?_
    · rw [hpath]
      exact hfree
    · rw [hpath, hrevision] at h
      exact h
    · exact fun _ _ h => h.elim

theorem exampleReaches_all (n : ℕ) (hn : n < UInt64.size) : ExampleReaches (UInt64.ofNat n) := by
  induction n with
  | zero => exact exampleReaches_zero
  | succ n ih =>
    obtain ⟨events, world, hrun, hworld⟩ := ih (by omega)
    have hnext : saturatingSucc (UInt64.ofNat n) = UInt64.ofNat (n + 1) := by
      have hnat : (UInt64.ofNat n).toNat = n := UInt64.toNat_ofNat_of_lt (by omega)
      rw [saturatingSucc, hnat, if_pos hn, UInt64.ofNat_add]
      rfl
    have hafter := Effect.Post.after (setKey_post (.inl rfl) hworld)
    rw [hnext] at hafter
    refine ⟨events ++ [.mutate exampleIo (.operate (.settingsAiApiKeyUpdate none))], _, ?_,
      hafter⟩
    rw [Machine.run, Machine.runFrom_append, ← Machine.run, hrun]
    rfl

/-- **The revision saturates**: in a state that the store can be in, an operation succeeds
and changes the data, and the revision stays the one before. -/
theorem revision_saturates :
    ∃ events world snapshot world',
      (vaultStore exampleCrates "vault.rpvault").run events = some world ∧
      (Mutation.operate (.settingsAiApiKeyUpdate (some "sk"))).run exampleCrates exampleIo world =
        (.ok snapshot, world') ∧
      world'.store.unlocked ≠ world.store.unlocked ∧
      world'.store.revision = world.store.revision := by
  obtain ⟨events, world, hrun, hworld⟩ := exampleReaches_all (UInt64.size - 1) (by decide)
  have hpost : ((Mutation.operate (.settingsAiApiKeyUpdate (some "sk"))).run exampleCrates
      exampleIo).Post world (fun _ => ExampleAt (some "sk") _) fun _ _ => False :=
    setKey_post (.inr rfl) hworld
  obtain ⟨r, world', hout⟩ : ∃ r world', (Mutation.operate
      (.settingsAiApiKeyUpdate (some "sk"))).run exampleCrates exampleIo world = (r, world') :=
    ⟨_, _, rfl⟩
  cases r with
  | error e => exact (hpost.of_error hout).elim
  | ok snapshot =>
    have hworld' := hpost.of_ok hout
    refine ⟨events, world, snapshot, world', hrun, hout, ?_, ?_⟩
    · rw [hworld'.1, hworld.1]
      intro heq
      have hdata := congrArg (fun u => u.map UnlockedVault.data) heq
      exact absurd hdata (by decide)
    · rw [hworld'.1, hworld.1]
      decide

/-- The store is created, and then a key is set. -/
theorem vault_commit_atomic_created :
    ∃ world snapshot world',
      (vaultStore exampleCrates "vault.rpvault").run [.create exampleIo autoPassword] =
        some world ∧
      (Mutation.operate (.settingsAiApiKeyUpdate (some "sk"))).run exampleCrates exampleIo world =
        (.ok snapshot, world') ∧
      (world' = world ∨ ∃ unlocked data, world.store.unlocked = some unlocked ∧
        Committed exampleCrates world unlocked data snapshot world') := by
  refine ⟨_, _, _, rfl, rfl, ?_⟩
  have hrun : (vaultStore exampleCrates "vault.rpvault").run [.create exampleIo autoPassword] =
      some _ := rfl
  exact (vault_commit_atomic exampleCrates_lawful hrun exampleIo
    (.operate (.settingsAiApiKeyUpdate (some "sk")))).of_ok rfl

end Vault
end HelmSsh
