/-
# Equal revision means equal data

What the methods of `VaultStore` (`src-tauri/src/vault.rs`) return is a `ConfigSnapshot`: data and
the revision of the store.  The frontend keeps the newest one that arrives (`src/lib/
configSnapshot.ts`).  In a run of one store, the snapshots of one revision have the same data, and a
later one never has a smaller revision (`equalRevision_of_run`): a change of the data advances the
revision, and what is opened again is what is in memory, because the file holds it and the
migration has nothing left to do.  So the frontend ends on the data of the greatest revision,
whatever order the snapshots arrive in.

Two things are outside of that (`equalRevision_fails`).  `validate_backup_bytes` returns the data of
the package that it has checked under the revision of the store; nothing uses them.  And a revision
arrives as a `number` of JavaScript, which above 2^53 is rounded.
-/

import HelmSsh.Newest
import HelmSsh.Vault.Backups

namespace HelmSsh
namespace Vault

open Config Crypto

variable {C : Crates} {io : Io} {world world' : World} {path : String}

/-! ### One store -/

/-- `VaultStore::snapshot`. -/
def snapshot : Method ConfigSnapshot := do
  let unlocked ← unlockedVault
  snapshotFor unlocked.data

/-- A method of a store that returns a snapshot of it. -/
inductive Reading where
  | create (io : Io) (masterPassword : String)
  | unlock (io : Io) (masterPassword : String)
  | migrate (io io' : Io) (oldPassword : String)
  | mutate (io : Io) (mutation : Mutation)
  | snapshot

/-- The method. -/
def Reading.run (C : Crates) : Reading → Method ConfigSnapshot
  | .create io masterPassword => Vault.create C io masterPassword
  | .unlock io masterPassword => Vault.unlock C io masterPassword
  | .migrate io io' oldPassword => Vault.migrate C io io' oldPassword
  | .mutate io mutation => mutation.run C io
  | .snapshot => Vault.snapshot

/-- A store, with the snapshots that it has returned, the last one first, and those that
`validate_backup_bytes` has returned. -/
structure Log where
  world : World
  returned : List ConfigSnapshot
  checked : List ConfigSnapshot

/-- What can happen to one store: a method that returns a snapshot, one that does not, the check of
a package in memory or in a file, and changes of other files. -/
inductive LogEvent where
  | read (reading : Reading)
  | autoOpen (io io' : Io)
  | validate (io : Io) (bytes : List UInt8)
  | validateFile (io : Io) (path : String)
  | others (path : String) (content : Option (List UInt8))

/-- The file of the store is its own. -/
def Log.enabled (log : Log) : LogEvent → Prop
  | .others path _ => path ≠ log.world.store.path
  | _ => True

instance (log : Log) (event : LogEvent) : Decidable (log.enabled event) := by
  cases event <;> unfold Log.enabled <;> infer_instance

/-- What an event leaves. -/
def Log.next (C : Crates) (log : Log) : LogEvent → Log
  | .read reading =>
    let (result, world) := reading.run C log.world
    { log with world := world, returned := result.toOption.toList ++ log.returned }
  | .autoOpen io io' => { log with world := (Vault.autoOpen C io io' log.world).2 }
  | .validate io bytes =>
    let (result, world) := validateBackupBytes C io bytes log.world
    { log with world := world, checked := result.toOption.toList ++ log.checked }
  | .validateFile io path =>
    let (result, world) := validateBackup C io path log.world
    { log with world := world, checked := result.toOption.toList ++ log.checked }
  | .others path content =>
    { log with
      world := { log.world with files := Function.update log.world.files path content } }

/-- One store, from its start on some files. -/
def oneStore (C : Crates) (path : String) (files : Files) : Machine Log LogEvent :=
  .guarded
    { world := { store := .new path, files := files }, returned := [], checked := [] }
    Log.enabled (Log.next C)

/-! ### The frontend -/

/-- The `number` of a `u64`: 53 significant bits, rounded to the nearest, and to even. -/
def toNumber (n : UInt64) : ℕ :=
  let unit := 2 ^ (n.toNat.log2 - 52)
  let whole := n.toNat / unit
  let rest := n.toNat % unit
  (if 2 * rest > unit ∨ 2 * rest = unit ∧ whole % 2 = 1 then whole + 1 else whole) * unit

/-- `isConfigSnapshotCurrent`. -/
def isConfigSnapshotCurrent (current : Option ConfigSnapshot) (candidate : ConfigSnapshot) : Bool :=
  current.all fun snapshot => toNumber snapshot.revision ≤ toNumber candidate.revision

/-- `commitConfigSnapshot`. -/
def commitConfigSnapshot (current : Option ConfigSnapshot) (snapshot : ConfigSnapshot) :
    Option ConfigSnapshot :=
  if isConfigSnapshotCurrent current snapshot then some snapshot else current

theorem commitConfigSnapshot_eq :
    commitConfigSnapshot = Newest.keep fun snapshot => toNumber snapshot.revision := by
  funext current snapshot
  rw [commitConfigSnapshot, isConfigSnapshotCurrent, Newest.keep]

theorem toNumber_eq {n : UInt64} (h : n.toNat ≤ 2 ^ 53) : toNumber n = n.toNat := by
  rcases Nat.lt_or_eq_of_le h with hlt | heq
  · have hunit : 2 ^ (n.toNat.log2 - 52) = 1 := by
      have hlog : n.toNat.log2 ≤ 52 := by
        by_cases hzero : n.toNat = 0
        · rw [hzero]
          decide
        · exact Nat.lt_succ_iff.mp ((Nat.log2_lt hzero).mpr hlt)
      rw [Nat.sub_eq_zero_of_le hlog, Nat.pow_zero]
    rw [toNumber, hunit, Nat.div_one, Nat.mod_one, Nat.mul_one, if_neg (by omega)]
  · rw [toNumber, heq]
    decide

/-! ### What the moves keep -/

/-- What the source relies on where a password is tried on an open store: the cipher refuses its
file a key that is not that of the session. -/
def RefusesOthers (C : Crates) (password : String) (world : World) : Prop :=
  ∀ unlocked bytes encrypted key, world.store.unlocked = some unlocked →
    world.files world.store.path = some bytes → decodeVault C bytes = .ok encrypted →
      deriveKey C password encrypted.salt encrypted.params = .ok key →
        key ≠ unlocked.crypto.key → Refuses C key encrypted

/-- The password that a method tries on the file of the store. -/
def Reading.tries : Reading → Option String
  | .unlock _ password | .migrate _ _ password => some password
  | _ => none

/-- The password that an event tries. -/
def LogEvent.tries : LogEvent → Option String
  | .read reading => reading.tries
  | .autoOpen .. => some autoPassword
  | _ => none

/-- The cipher refuses other keys than that of the session where the event tries one. -/
def Log.RefusesTried (C : Crates) (log : Log) (event : LogEvent) : Prop :=
  ∀ password ∈ event.tries, RefusesOthers C password log.world

/-- The store is sound, and the migration has nothing to do on its data. -/
structure Steady (C : Crates) (path : String) (world : World) : Prop where
  sound : Sound C path world
  normalized : ∀ unlocked, world.store.unlocked = some unlocked → Normalized unlocked.data

/-- The largest revision is not reached. -/
def Below (world : World) : Prop :=
  world.store.revision.toNat + 1 < UInt64.size

/-- The revision has not gone back, and while it is the same, so are the data. -/
structure Follows (world world' : World) : Prop where
  revision : world.store.revision.toNat ≤ world'.store.revision.toNat
  data : Below world' → world'.store.revision = world.store.revision → ∀ unlocked,
    world.store.unlocked = some unlocked →
      ∃ unlocked', world'.store.unlocked = some unlocked' ∧ unlocked'.data = unlocked.data

theorem Follows.refl (world : World) : Follows world world :=
  ⟨le_refl _, fun _ _ unlocked h => ⟨unlocked, h, rfl⟩⟩

theorem Follows.trans {world'' : World} (h : Follows world world') (h' : Follows world' world'') :
    Follows world world'' := by
  refine ⟨le_trans h.revision h'.revision, fun hbelow hsame unlocked hunlocked => ?_⟩
  have hmiddle : world'.store.revision = world.store.revision := by
    have hle := h'.revision
    rw [hsame] at hle
    exact UInt64.toNat_inj.mp (le_antisymm hle h.revision)
  have hbelow' : Below world' := by
    rw [Below, hmiddle, ← hsame]
    exact hbelow
  obtain ⟨unlocked', hunlocked', hdata⟩ := h.data hbelow' hmiddle unlocked hunlocked
  obtain ⟨unlocked'', hunlocked'', hdata'⟩ :=
    h'.data hbelow (hsame.trans hmiddle.symm) unlocked' hunlocked'
  exact ⟨unlocked'', hunlocked'', hdata'.trans hdata⟩

/-- A store that keeps its revision and takes up data is followed when they are those it had. -/
theorem follows_of_store {data : VaultData} {session : CryptoSession}
    (hstore : world'.store =
      { world.store with unlocked := some { data := data, crypto := session } })
    (hdata : ∀ unlocked, world.store.unlocked = some unlocked → data = unlocked.data) :
    Follows world world' := by
  refine ⟨?_, fun _ _ unlocked hunlocked => ?_⟩
  · rw [hstore]
  · refine ⟨{ data := data, crypto := session }, ?_, hdata unlocked hunlocked⟩
    rw [hstore]

/-- The revision after another is not that one, below the largest. -/
theorem saturatingSucc_toNat (n : UInt64) :
    n.toNat ≤ (saturatingSucc n).toNat ∧
      ((saturatingSucc n).toNat + 1 < UInt64.size → saturatingSucc n ≠ n) := by
  rw [saturatingSucc]
  split_ifs with hbelow
  · have hsucc : (n + 1).toNat = n.toNat + 1 := by
      rw [UInt64.toNat_add]
      exact Nat.mod_eq_of_lt hbelow
    refine ⟨?_, fun _ heq => ?_⟩
    · rw [hsucc]
      exact Nat.le_succ _
    · rw [heq] at hsucc
      omega
  · exact ⟨le_refl _, fun h => absurd h hbelow⟩

theorem Steady.opened_data (h : Steady C path world) {masterPassword : String}
    (hrefuses : RefusesOthers C masterPassword world) {encrypted : EncryptedVault}
    {data : VaultData} {session : CryptoSession} {snapshot : ConfigSnapshot}
    (hopened : Opened C io masterPassword world encrypted data session snapshot world')
    {unlocked : UnlockedVault} (hunlocked : world.store.unlocked = some unlocked) :
    (migrateVaultData io.env.now data).1 = unlocked.data := by
  obtain ⟨bytes, hbytes, hdecode⟩ := hopened.content
  obtain ⟨bytes', encrypted', hbytes', hdecode', hdata⟩ := h.sound.file unlocked hunlocked
  rw [← h.sound.atPath, hbytes] at hbytes'
  obtain rfl := Option.some.inj hbytes'
  obtain rfl := Except.ok.inj (hdecode.symm.trans hdecode')
  obtain ⟨key, hderive, hopens⟩ := bind_ok hopened.opens
  obtain ⟨data', hdata', hopens⟩ := bind_ok hopens
  obtain ⟨rfl, -⟩ := Prod.mk.inj (Except.ok.inj hopens)
  have hkey : key = unlocked.crypto.key := by
    by_contra hne
    have hrefused := hrefuses unlocked bytes encrypted key hunlocked hbytes hdecode hderive hne
    rw [hrefused.decryptWithKey] at hdata'
    cases hdata'
  rw [hkey] at hdata'
  obtain rfl := Except.ok.inj (hdata'.symm.trans hdata)
  rw [(h.normalized unlocked hunlocked).migrateVaultData_eq]

theorem Normalized.gives {env : Env} {data data' : VaultData} (h : Normalized data)
    {mutation : Mutation} (hgives : mutation.Gives env data data') : Normalized data' := by
  cases mutation with
  | operate op =>
    obtain ⟨_, _, hok⟩ := bind_ok hgives
    split_ifs at hok
    · obtain rfl := Except.ok.inj hok
      exact h
    · obtain ⟨updated, hupdate, hok⟩ := bind_ok hok
      obtain rfl := Except.ok.inj hok
      exact (h.update op hupdate).touch _
  | backupImport =>
    obtain ⟨read, rfl⟩ := hgives
    exact normalized_migrateVaultData _ _
  | backupImportBytes =>
    obtain ⟨read, rfl⟩ := hgives
    exact normalized_migrateVaultData _ _

/-- The data of a store that has taken them up are normalized. -/
theorem steady_of_store (hsound : Sound C path world') {data : VaultData} {session : CryptoSession}
    (hstore : world'.store.unlocked = some { data := data, crypto := session })
    (hdata : Normalized data) : Steady C path world' := by
  refine ⟨hsound, fun unlocked hunlocked => ?_⟩
  rw [hstore] at hunlocked
  obtain rfl := Option.some.inj hunlocked
  exact hdata

/-- **A move keeps the store steady, and is followed.** -/
theorem Steady.move (hC : C.Lawful) (h : Steady C path world)
    (hmove : Move C (RefusesOthers C) world world') :
    Steady C path world' ∧ Follows world world' := by
  have hsound := h.sound.move hC hmove
  cases hmove with
  | untouched hsame =>
    constructor
    · refine ⟨hsound, fun unlocked hunlocked => h.normalized unlocked ?_⟩
      rw [← hsame.store]
      exact hunlocked
    · refine ⟨?_, fun _ _ unlocked hunlocked => ⟨unlocked, ?_, rfl⟩⟩
      · rw [hsame.store]
      · rw [hsame.store]
        exact hunlocked
  | created masterPassword env session hnone hinstalled =>
    constructor
    · exact steady_of_store hsound (congrArg VaultStore.unlocked hinstalled.store)
        (normalized_withDefaultGroup env.now env.newId)
    · refine follows_of_store hinstalled.store fun unlocked hunlocked => ?_
      obtain ⟨bytes, _, hbytes, _⟩ := h.sound.file unlocked hunlocked
      rw [h.sound.atPath, hbytes] at hnone
      cases hnone
  | opened io masterPassword encrypted data session snapshot hrefuses hopened =>
    constructor
    · exact steady_of_store hsound (congrArg VaultStore.unlocked hopened.store)
        (normalized_migrateVaultData io.env.now data)
    · exact follows_of_store hopened.store fun _ hunlocked =>
        h.opened_data hrefuses hopened hunlocked
  | changed env mutation unlocked data snapshot hunlocked hgives hchange =>
    have hrevision : world'.store.revision = saturatingSucc world.store.revision := by
      rw [hchange.store]
    obtain ⟨hle, hne⟩ := saturatingSucc_toNat world.store.revision
    constructor
    · exact steady_of_store hsound (congrArg VaultStore.unlocked hchange.store)
        ((h.normalized unlocked hunlocked).gives hgives)
    · refine ⟨?_, fun hbelow hsame => ?_⟩
      · rw [hrevision]
        exact hle
      · rw [Below, hrevision] at hbelow
        rw [hrevision] at hsame
        exact absurd hsame (hne hbelow)

/-- A new key keeps the store steady, and is followed. -/
theorem Steady.rekey (hC : C.Lawful) (h : Steady C path world) (hrekey : Rekey C world world') :
    Steady C path world' ∧ Follows world world' := by
  have hsound := h.sound.rekey hC hrekey
  obtain ⟨unlocked, session, hunlocked, hinstalled⟩ := hrekey
  constructor
  · exact steady_of_store hsound (congrArg VaultStore.unlocked hinstalled.store)
      (h.normalized unlocked hunlocked)
  · refine follows_of_store hinstalled.store fun unlocked' hunlocked' => ?_
    obtain rfl := Option.some.inj (hunlocked.symm.trans hunlocked')
    rfl

/-- **Moves keep the store steady, and are followed.** -/
theorem Steady.moves {rekeys : Prop} (hC : C.Lawful) (h : Steady C path world)
    (hmoves : Moves C (RefusesOthers C) rekeys world world') :
    Steady C path world' ∧ Follows world world' := by
  refine hmoves.keeps (P := fun w => Steady C path w ∧ Follows world w) ?_ ?_ ⟨h, .refl world⟩
  · intro a b ⟨hsteady, hfollows⟩ hmove
    obtain ⟨hsteady', hstep⟩ := hsteady.move hC hmove
    exact ⟨hsteady', hfollows.trans hstep⟩
  · intro _ a b ⟨hsteady, hfollows⟩ hrekey
    obtain ⟨hsteady', hstep⟩ := hsteady.rekey hC hrekey
    exact ⟨hsteady', hfollows.trans hstep⟩

/-! ### Runs of one store -/

/-- The methods make moves, and a snapshot shows the data in memory. -/
theorem reading_moves (reading : Reading)
    (hrefuses : ∀ password ∈ reading.tries, RefusesOthers C password world) :
    (reading.run C).Post world
      (fun snapshot world' => Moves C (RefusesOthers C) True world world' ∧ Shows snapshot world')
      fun _ world' => Moves C (RefusesOthers C) True world world' := by
  cases reading with
  | create io masterPassword =>
    exact (create_moves masterPassword).mono (fun _ _ h => ⟨h.1.moves, h.2⟩) fun _ _ h => h.moves
  | unlock io masterPassword =>
    exact (unlock_moves masterPassword (hrefuses _ rfl)).mono (fun _ _ h => ⟨h.1.moves, h.2⟩)
      fun _ _ h => h.moves
  | migrate io io' oldPassword => exact migrate_moves oldPassword (hrefuses _ rfl)
  | mutate io mutation =>
    exact (mutation_moves mutation).mono (fun _ _ h => ⟨h.1.moves, h.2⟩) fun _ _ h => h.moves
  | snapshot =>
    refine .bind (unlockedVault_post (fun unlocked hunlocked => ?_) fun _ => .refl)
    exact .gets ⟨.refl, unlocked, hunlocked, rfl⟩

/-- The snapshots that a store has returned: none is ahead of it, none is ahead of a later one, and
below the largest revision those of one revision are equal, and those of the present one show the
data in memory. -/
structure Agrees (world : World) (returned : List ConfigSnapshot) : Prop where
  bounded : ∀ x ∈ returned, x.revision.toNat ≤ world.store.revision.toNat
  ordered : returned.Pairwise fun later earlier => earlier.revision.toNat ≤ later.revision.toNat
  present : Below world → ∀ x ∈ returned, x.revision = world.store.revision →
    ∃ unlocked, world.store.unlocked = some unlocked ∧ unlocked.data = x.data
  equal : Below world → ∀ x ∈ returned, ∀ y ∈ returned, x.revision = y.revision → x.data = y.data

theorem agrees_nil (world : World) : Agrees world [] where
  bounded := fun _ hx => absurd hx List.not_mem_nil
  ordered := List.Pairwise.nil
  present := fun _ _ hx => absurd hx List.not_mem_nil
  equal := fun _ _ hx => absurd hx List.not_mem_nil

variable {returned : List ConfigSnapshot}

/-- What was returned agrees with a store that follows. -/
theorem Agrees.follows (h : Agrees world returned) (hfollows : Follows world world') :
    Agrees world' returned := by
  have hbelow : Below world' → Below world := fun hbelow =>
    lt_of_le_of_lt (Nat.succ_le_succ hfollows.revision) hbelow
  refine ⟨fun x hx => le_trans (h.bounded x hx) hfollows.revision, h.ordered, ?_,
    fun hbelow' => h.equal (hbelow hbelow')⟩
  intro hbelow' x hx hrevision
  have hsame : world'.store.revision = world.store.revision := by
    have hle := h.bounded x hx
    rw [hrevision] at hle
    exact UInt64.toNat_inj.mp (le_antisymm hle hfollows.revision)
  obtain ⟨unlocked, hunlocked, hdata⟩ := h.present (hbelow hbelow') x hx (hrevision.trans hsame)
  obtain ⟨unlocked', hunlocked', hdata'⟩ := hfollows.data hbelow' hsame unlocked hunlocked
  exact ⟨unlocked', hunlocked', hdata'.trans hdata⟩

/-- A snapshot that shows the data in memory agrees with those before it. -/
theorem Agrees.cons (h : Agrees world returned) {snapshot : ConfigSnapshot}
    (hshows : Shows snapshot world) : Agrees world (snapshot :: returned) := by
  obtain ⟨unlocked, hunlocked, rfl⟩ := hshows
  have hnew : Below world → ∀ x ∈ returned, x.revision = world.store.revision →
      x.data = unlocked.data := by
    intro hbelow x hx hrevision
    obtain ⟨unlocked', hunlocked', hdata⟩ := h.present hbelow x hx hrevision
    obtain rfl := Option.some.inj (hunlocked.symm.trans hunlocked')
    exact hdata.symm
  refine ⟨fun x hx => ?_, List.pairwise_cons.mpr ⟨h.bounded, h.ordered⟩,
    fun hbelow x hx hsame => ?_,
    fun hbelow x hx y hy hsame => ?_⟩
  · rcases List.mem_cons.mp hx with rfl | hx
    · exact le_refl _
    · exact h.bounded x hx
  · rcases List.mem_cons.mp hx with rfl | hx
    · exact ⟨unlocked, hunlocked, rfl⟩
    · exact h.present hbelow x hx hsame
  · rcases List.mem_cons.mp hx with rfl | hx
    · rcases List.mem_cons.mp hy with rfl | hy
      · rfl
      · exact (hnew hbelow y hy hsame.symm).symm
    · rcases List.mem_cons.mp hy with rfl | hy
      · exact hnew hbelow x hx hsame
      · exact h.equal hbelow x hx y hy hsame

/-- The store is steady, and agrees with what it has returned. -/
structure Log.Inv (C : Crates) (path : String) (log : Log) : Prop where
  steady : Steady C path log.world
  agrees : Agrees log.world log.returned

/-- A method that returns a snapshot keeps the invariant. -/
theorem Log.Inv.read (hC : C.Lawful) {log : Log} (h : log.Inv C path) (reading : Reading)
    (hrefuses : log.RefusesTried C (.read reading)) :
    (log.next C (.read reading)).Inv C path := by
  have hpost := @reading_moves C log.world reading hrefuses
  rw [Log.next]
  rcases hrun : reading.run C log.world with ⟨e | snapshot, world⟩
  · obtain ⟨hsteady, hfollows⟩ := h.steady.moves hC (hpost.of_error hrun)
    exact ⟨hsteady, h.agrees.follows hfollows⟩
  · obtain ⟨hmoves, hshows⟩ := hpost.of_ok hrun
    obtain ⟨hsteady, hfollows⟩ := h.steady.moves hC hmoves
    exact ⟨hsteady, (h.agrees.follows hfollows).cons hshows⟩

theorem validateBackupBytes_world (bytes : List UInt8) :
    (validateBackupBytes C io bytes).Post world (fun _ world' => world' = world)
      fun _ world' => world' = world := by
  refine .bind (.ofExcept (fun payload _ => ?_) fun _ _ => rfl)
  refine .bind (unlockedVault_post (fun unlocked _ => ?_) fun _ => rfl)
  refine .bind (.ofExcept (fun encrypted _ => ?_) fun _ _ => rfl)
  exact .bind (.ofExcept (fun data _ => .gets rfl) fun _ _ => rfl)

theorem validateBackup_world (path : String) :
    (validateBackup C io path).Post world (fun _ world' => world' = world)
      fun _ world' => world' = world := by
  refine .bind (readFile_post (fun content _ => ?_) fun _ => rfl)
  exact .bind (.ofExcept (fun payload _ => validateBackupBytes_world payload) fun _ _ => rfl)

/-- **One step keeps the invariant.** -/
theorem Log.Inv.step (hC : C.Lawful) {files : Files} {log log' : Log} {event : LogEvent}
    (h : log.Inv C path) (hrefuses : log.RefusesTried C event)
    (hstep : (oneStore C path files).step log event = some log') : log'.Inv C path := by
  obtain ⟨henabled, rfl⟩ := Machine.guarded_step.mp hstep
  cases event with
  | read reading => exact h.read hC reading hrefuses
  | autoOpen io io' =>
    have hmoves := (@autoOpen_moves C io log.world (RefusesOthers C) io' (hrefuses _ rfl)).after
    obtain ⟨hsteady, hfollows⟩ := h.steady.moves hC hmoves
    exact ⟨hsteady, h.agrees.follows hfollows⟩
  | validate io bytes =>
    have hsame := (@validateBackupBytes_world C io log.world bytes).after
    rw [Log.next]
    dsimp only
    rw [hsame]
    exact ⟨h.steady, h.agrees⟩
  | validateFile io other =>
    have hsame := (@validateBackup_world C io log.world other).after
    rw [Log.next]
    dsimp only
    rw [hsame]
    exact ⟨h.steady, h.agrees⟩
  | others other content =>
    have hmove : Move C (RefusesOthers C) log.world
        { log.world with files := Function.update log.world.files other content } :=
      .untouched ⟨rfl, Function.update_of_ne (Ne.symm henabled) _ _⟩
    obtain ⟨hsteady, hfollows⟩ := h.steady.move hC hmove
    exact ⟨hsteady, h.agrees.follows hfollows⟩

theorem inv_of_run (hC : C.Lawful) {files : Files} {events : List LogEvent} {log : Log}
    (hok : (oneStore C path files).Meets (Log.RefusesTried C) events)
    (h : (oneStore C path files).run events = some log) : log.Inv C path := by
  refine Machine.run_invariant_of ?_ (fun _ _ _ hs hok hstep => hs.step hC hok hstep) hok h
  exact ⟨⟨sound_locked rfl rfl, fun _ hunlocked => by cases hunlocked⟩, agrees_nil _⟩

/-- **Equal revision means equal data.**  In every run of one store that stays below the largest
revision and in which the cipher refuses wrong keys, the snapshots that its methods return, but for
those of a package that is only checked, have equal data when they have the same revision, and a
later one never has a smaller revision.  So in whatever order some of them arrive, as far as their
revisions are exact numbers, the frontend ends on one that no other is ahead of, with the data of
that revision. -/
theorem equalRevision_of_run (hC : C.Lawful) {files : Files} {events : List LogEvent} {log : Log}
    (hok : (oneStore C path files).Meets (Log.RefusesTried C) events)
    (h : (oneStore C path files).run events = some log)
    (hbelow : log.world.store.revision.toNat + 1 < UInt64.size) :
    (∀ x ∈ log.returned, ∀ y ∈ log.returned, x.revision = y.revision → x.data = y.data) ∧
    (log.returned.Pairwise fun later earlier => earlier.revision.toNat ≤ later.revision.toNat) ∧
    ∀ delivered : List ConfigSnapshot, delivered ≠ [] → (∀ x ∈ delivered, x ∈ log.returned) →
      (∀ x ∈ delivered, x.revision.toNat ≤ 2 ^ 53) →
      ∃ kept ∈ delivered, delivered.foldl commitConfigSnapshot none = some kept ∧
        ∀ x ∈ delivered, x.revision.toNat ≤ kept.revision.toNat ∧
          (x.revision = kept.revision → x.data = kept.data) := by
  have hinv := inv_of_run hC hok h
  have hequal := hinv.agrees.equal hbelow
  refine ⟨hequal, hinv.agrees.ordered, fun delivered hne hreturned hexact => ?_⟩
  obtain ⟨kept, hkept, hfold, hgreatest⟩ :=
    Newest.foldl_keep (fun snapshot : ConfigSnapshot => toNumber snapshot.revision) hne
  refine ⟨kept, hkept, commitConfigSnapshot_eq ▸ hfold, fun x hx => ⟨?_, ?_⟩⟩
  · have hle := hgreatest x hx
    rw [toNumber_eq (hexact x hx), toNumber_eq (hexact kept hkept)] at hle
    exact hle
  · exact hequal x (hreturned x hx) kept (hreturned kept hkept)

/-! ### What is outside -/

/-- The event that sets the API key. -/
def setKey (key : Option String) : LogEvent :=
  .read (.mutate exampleIo (.operate (.settingsAiApiKeyUpdate key)))

/-- From a state of the runs below, the API key is set and a snapshot returned. -/
theorem setKey_log {key : Option String} {revision : UInt64} (hkey : key = none ∨ key = some "sk")
    {log : Log} (hlog : ExampleAt none revision log.world) :
    ∃ world, log.next exampleCrates (setKey key) =
        { log with
          world := world
          returned := { data := exampleData key, revision := saturatingSucc revision } ::
            log.returned } ∧
      ExampleAt key (saturatingSucc revision) world := by
  have hset : ((Mutation.operate (.settingsAiApiKeyUpdate key)).run exampleCrates exampleIo).Post
      log.world (fun _ => ExampleAt key (saturatingSucc revision)) fun _ _ => False :=
    setKey_post hkey hlog
  have hshow := @mutation_moves exampleCrates exampleIo log.world (RefusesOthers exampleCrates)
    (.operate (.settingsAiApiKeyUpdate key))
  rcases hrun : (Mutation.operate (.settingsAiApiKeyUpdate key)).run exampleCrates exampleIo
    log.world with ⟨e | snapshot, world⟩
  · exact (hset.of_error hrun).elim
  · have hworld := hset.of_ok hrun
    obtain ⟨_, unlocked, hunlocked, rfl⟩ := hshow.of_ok hrun
    rw [hworld.1] at hunlocked
    obtain rfl := Option.some.inj hunlocked
    have hrevision : world.store.revision = saturatingSucc revision := by
      rw [hworld.1]
      rfl
    refine ⟨world, ?_, hworld⟩
    rw [setKey, Log.next, Reading.run, hrun, hrevision]
    rfl

/-- The store of the runs below, from its start on no files. -/
abbrev exampleStoreRun : Machine Log LogEvent :=
  oneStore exampleCrates "vault.rpvault" fun _ => none

theorem exampleStoreRun_setKey {events : List LogEvent} {log : Log} (key : Option String)
    (h : exampleStoreRun.run events = some log) :
    exampleStoreRun.run (events ++ [setKey key]) =
      some (log.next exampleCrates (setKey key)) := by
  rw [Machine.run, Machine.runFrom_append, ← Machine.run, h]
  rfl

theorem exampleStoreRun_all (n : ℕ) (hn : n < UInt64.size) :
    ∃ events log, exampleStoreRun.run events = some log ∧
      ExampleAt none (UInt64.ofNat n) log.world ∧
      { data := exampleData none, revision := UInt64.ofNat n } ∈ log.returned := by
  induction n with
  | zero => exact ⟨[.read (.create exampleIo autoPassword)], _, rfl, ⟨rfl, rfl⟩, List.mem_cons_self⟩
  | succ n ih =>
    obtain ⟨events, log, hrun, hlog, _⟩ := ih (by omega)
    have hnext : saturatingSucc (UInt64.ofNat n) = UInt64.ofNat (n + 1) := by
      have hnat : (UInt64.ofNat n).toNat = n := UInt64.toNat_ofNat_of_lt (by omega)
      rw [saturatingSucc, hnat, if_pos hn, UInt64.ofNat_add]
      rfl
    obtain ⟨world, hset, hworld⟩ := setKey_log (.inl rfl) hlog
    rw [hnext] at hset hworld
    refine ⟨events ++ [setKey none], _, exampleStoreRun_setKey none hrun, ?_, ?_⟩
    · rw [hset]
      exact hworld
    · rw [hset]
      exact List.mem_cons_self

/-- All keys are those of the session. -/
theorem exampleCrates_refuses {data : VaultData}
    (hopen : world.store.unlocked = some { data := data, crypto := exampleCrypto })
    (password : String) : RefusesOthers exampleCrates password world := by
  intro unlocked bytes encrypted key hunlocked _ _ hderive hne
  obtain rfl := Option.some.inj (hopen.symm.trans hunlocked)
  obtain ⟨_, _, hkey⟩ := bind_ok hderive
  exact absurd (Except.ok.inj hkey).symm hne

/-- The events of the run below, but for the check: a workspace is created, and a key is set. -/
def keyRun : List LogEvent :=
  [.read (.create exampleIo autoPassword), setKey (some "sk")]

/-- The workspace of the run is created and copied, the key is set, and two snapshots are
returned. -/
theorem keyRun_log :
    ∃ log bytes, exampleStoreRun.run keyRun = some log ∧
      ExampleAt (some "sk") 1 log.world ∧
      FileHolds exampleCrates exampleCrypto (exampleData none) (some bytes) ∧
      log.returned = [{ data := exampleData (some "sk"), revision := 1 },
        { data := exampleData none, revision := 0 }] ∧ log.checked = [] := by
  have hcreate : exampleStoreRun.run [.read (.create exampleIo autoPassword)] =
      some (exampleStoreRun.init.next exampleCrates (.read (.create exampleIo autoPassword))) := rfl
  have hcreated : ExampleAt none 0
      (exampleStoreRun.init.next exampleCrates (.read (.create exampleIo autoPassword))).world :=
    ⟨rfl, rfl⟩
  have hok : exampleStoreRun.Meets (Log.RefusesTried exampleCrates)
      [.read (.create exampleIo autoPassword)] := ⟨nofun, fun _ _ => trivial⟩
  have hinv := inv_of_run exampleCrates_lawful hok hcreate
  have hholds := hinv.steady.sound.file { data := exampleData none, crypto := exampleCrypto } rfl
  obtain ⟨bytes, encrypted, hbytes, hdecode, hdata⟩ := hholds
  obtain ⟨world, hset, hworld⟩ := setKey_log (.inr rfl) hcreated
  refine ⟨_, bytes, exampleStoreRun_setKey (some "sk") hcreate, ?_,
    ⟨bytes, encrypted, rfl, hdecode, hdata⟩, ?_, ?_⟩
  · rw [hset]
    exact hworld
  · rw [hset]
    rfl
  · rw [hset]
    rfl

/-- The run above, and the workspace is unlocked again. -/
def unlockedAgain : List LogEvent :=
  keyRun ++ [.read (.unlock exampleIo autoPassword)]

theorem unlockedAgain_meets :
    exampleStoreRun.Meets (Log.RefusesTried exampleCrates) unlockedAgain := by
  obtain ⟨log, _, hrun, hlog, _⟩ := keyRun_log
  refine ⟨nofun, fun created hcreated => ⟨nofun, fun changed hchanged => ⟨?_, fun _ _ => trivial⟩⟩⟩
  have hsame : exampleStoreRun.run keyRun = some changed := by
    rw [Machine.run, keyRun, Machine.runFrom_cons, hcreated]
    exact (Machine.runFrom_cons ..).trans (by rw [hchanged])
  obtain rfl := Option.some.inj (hrun.symm.trans hsame)
  intro password _
  refine @exampleCrates_refuses _ (exampleData (some "sk")) ?_ password
  rw [hlog.1]
  rfl

/-- The file is as the session has written it, so the unlocking returns the same data. -/
theorem unlockedAgain_log :
    ∃ log, exampleStoreRun.run unlockedAgain = some log ∧ log.world.store.revision = 1 ∧
      log.returned = [{ data := exampleData (some "sk"), revision := 1 },
        { data := exampleData (some "sk"), revision := 1 },
        { data := exampleData none, revision := 0 }] := by
  obtain ⟨log, _, hrun, hlog, _, hreturned, _⟩ := keyRun_log
  have hok : exampleStoreRun.Meets (Log.RefusesTried exampleCrates) keyRun :=
    (Machine.meetsFrom_append unlockedAgain_meets hrun).1
  have hsteady := (inv_of_run exampleCrates_lawful hok hrun).steady
  have hunlocked : log.world.store.unlocked =
      some { data := exampleData (some "sk"), crypto := exampleCrypto } := by
    rw [hlog.1]
    rfl
  have hrevision : log.world.store.revision = 1 := by
    rw [hlog.1]
    rfl
  obtain ⟨bytes, encrypted, hbytes, hdecode, hdata⟩ := hsteady.sound.file _ hunlocked
  rw [← hsteady.sound.atPath] at hbytes
  have hderive : deriveKey exampleCrates autoPassword encrypted.salt encrypted.params =
      .ok exampleCrypto.key := by
    rw [deriveKey, decodeVault_params hdecode]
    rfl
  have hopens : decryptWithPassword exampleCrates autoPassword encrypted =
      .ok (exampleData (some "sk"),
        { key := exampleCrypto.key, salt := encrypted.salt, params := encrypted.params }) := by
    rw [decryptWithPassword, hderive]
    show (decryptWithKey exampleCrates exampleCrypto.key encrypted >>= _) = _
    rw [hdata]
    rfl
  have hunlock := @unlock_eq _ exampleIo _ _ _ _ _ _ rfl hbytes hdecode hopens
    ((hsteady.normalized _ hunlocked).migrateVaultData_eq _)
  refine ⟨log.next exampleCrates (.read (.unlock exampleIo autoPassword)), ?_, ?_, ?_⟩
  · rw [unlockedAgain, Machine.run, Machine.runFrom_append, ← Machine.run, hrun]
    rfl
  · rw [Log.next, Reading.run, hunlock]
    exact hrevision
  · rw [Log.next, Reading.run, hunlock, hrevision, hreturned]
    rfl

/-- A workspace is created, a key is set and the workspace is unlocked again; the frontend ends on
a snapshot with the key. -/
theorem equalRevision_of_run_unlockedAgain :
    ∃ log, exampleStoreRun.run unlockedAgain = some log ∧ log.returned.length = 3 ∧
      (log.returned.Pairwise fun later earlier =>
        earlier.revision.toNat ≤ later.revision.toNat) ∧
      ∃ kept ∈ log.returned, log.returned.foldl commitConfigSnapshot none = some kept := by
  obtain ⟨log, hrun, hrevision, hreturned⟩ := unlockedAgain_log
  have hbelow : log.world.store.revision.toNat + 1 < UInt64.size := by
    rw [hrevision]
    decide
  obtain ⟨_, hordered, hfrontend⟩ :=
    equalRevision_of_run exampleCrates_lawful unlockedAgain_meets hrun hbelow
  have hexact : ∀ x ∈ log.returned, x.revision.toNat ≤ 2 ^ 53 := by
    intro x hx
    rw [hreturned] at hx
    simp only [List.mem_cons, List.not_mem_nil, or_false] at hx
    rcases hx with rfl | rfl | rfl
    · decide
    · decide
    · decide
  obtain ⟨kept, hkept, hfold, _⟩ :=
    hfrontend log.returned (by rw [hreturned]; exact List.cons_ne_nil _ _) (fun _ hx => hx) hexact
  exact ⟨log, hrun, by rw [hreturned]; rfl, hordered, kept, hkept, hfold⟩

/-- **What is outside of equal revisions.**  The check of an older copy returns its data under the
present revision; and above 2^53 the frontend ends on the older one of two snapshots when it
arrives last. -/
theorem equalRevision_fails :
    (∃ events log, exampleStoreRun.run events = some log ∧
      log.world.store.revision.toNat + 1 < UInt64.size ∧
      ∃ x ∈ log.returned, ∃ y ∈ log.checked, x.revision = y.revision ∧ x.data ≠ y.data) ∧
    ∃ events log, exampleStoreRun.run events = some log ∧
      log.world.store.revision.toNat + 1 < UInt64.size ∧
      ∃ x ∈ log.returned, ∃ y ∈ log.returned, x.revision.toNat < y.revision.toNat ∧
        [y, x].foldl commitConfigSnapshot none = some x ∧ x.data ≠ y.data := by
  have hne : exampleData none ≠ exampleData (some "sk") := by decide
  constructor
  · obtain ⟨log, bytes, hrun, hlog, hholds, hreturned, hchecked⟩ := keyRun_log
    have hunlocked : log.world.store.unlocked =
        some { data := exampleData (some "sk"), crypto := exampleCrypto } := by
      rw [hlog.1]
      rfl
    have hrevision : log.world.store.revision = 1 := by
      rw [hlog.1]
      rfl
    have hcheck := (@accepts_of_fileHolds _ exampleIo _ _ _ _ _ hholds hunlocked rfl).1
    have hdata : migrateVaultData exampleIo.env.now (exampleData none) =
        (exampleData none, false) := (normalized_withDefaultGroup "t" "g").migrateVaultData_eq "t"
    rw [hdata, hrevision] at hcheck
    have hnext : log.next exampleCrates (.validate exampleIo bytes) =
        { log with
          checked := { data := exampleData none, revision := 1 } :: log.checked } := by
      rw [Log.next, hcheck]
      rfl
    refine ⟨keyRun ++ [.validate exampleIo bytes],
      { log with checked := { data := exampleData none, revision := 1 } :: log.checked }, ?_, ?_,
      { data := exampleData (some "sk"), revision := 1 }, ?_,
      { data := exampleData none, revision := 1 }, List.mem_cons_self, rfl, hne.symm⟩
    · rw [Machine.run, Machine.runFrom_append, ← Machine.run, hrun, ← hnext]
      rfl
    · show log.world.store.revision.toNat + 1 < UInt64.size
      rw [hrevision]
      decide
    · show _ ∈ log.returned
      rw [hreturned]
      exact List.mem_cons_self
  · obtain ⟨events, log, hrun, hlog, hmem⟩ := exampleStoreRun_all (2 ^ 53) (by decide)
    obtain ⟨world, hset, hworld⟩ := setKey_log (.inr rfl) hlog
    refine ⟨events ++ [setKey (some "sk")], _, exampleStoreRun_setKey _ hrun, ?_,
      { data := exampleData none, revision := UInt64.ofNat (2 ^ 53) }, ?_,
      { data := exampleData (some "sk"), revision := saturatingSucc (UInt64.ofNat (2 ^ 53)) },
      ?_, ?_, ?_, hne⟩
    · rw [hset, hworld.1]
      decide
    · rw [hset]
      exact List.mem_cons_of_mem _ hmem
    · rw [hset]
      exact List.mem_cons_self
    · decide
    · rw [commitConfigSnapshot_eq]
      rfl

end Vault
end HelmSsh
