/-
# What can happen to the workspace store

Every method of the store, whether it succeeds or fails, is a sequence of few kinds of moves: a
`Move`, which leaves the key of the workspace alone, a `Rekey`, which encrypts the data in memory
under a new one, and for `vault_skip_migration` a `Removal`.  What the moves keep, all methods and
all runs keep (`Sound.moves`, and the modules after this one).

* `create_moves`, `unlock_moves`, `mutation_moves`, `migrate_moves`, `autoOpen_moves` — the moves
  of each method, and that a snapshot shows the data in memory (`Shows`).
* `moves_of_step` — the moves of an event of `vaultStore`, with a new key only where the event
  gives one (`Rekeys`).
-/

import HelmSsh.Vault.Commit
import Mathlib.Logic.Relation

namespace HelmSsh
namespace Vault

open Config Crypto

variable {C : Crates} {io : Io} {world world' : World}

/-- What a method does to the store without a new key: nothing, or a new workspace where there was
no file, or the workspace of the file with a password that `opens` allows, or a change of the data
in memory. -/
inductive Move (C : Crates) (opens : String → World → Prop) (world world' : World) : Prop where
  | untouched (h : Untouched world world')
  | created (masterPassword : String) (env : Env) (session : CryptoSession)
      (hnone : world.files world.store.path = none)
      (h : Installed C masterPassword world (.withDefaultGroup env.now env.newId) session world')
  | opened (io : Io) (masterPassword : String) (encrypted : EncryptedVault) (data : VaultData)
      (session : CryptoSession) (snapshot : ConfigSnapshot) (hopens : opens masterPassword world)
      (h : Opened C io masterPassword world encrypted data session snapshot world')
  | changed (env : Env) (mutation : Mutation) (unlocked : UnlockedVault) (data : VaultData)
      (snapshot : ConfigSnapshot) (hunlocked : world.store.unlocked = some unlocked)
      (hgives : mutation.Gives env unlocked.data data)
      (h : Changed C world unlocked data snapshot world')

/-- The data in memory are encrypted under a new key. -/
def Rekey (C : Crates) (world world' : World) : Prop :=
  ∃ unlocked session, world.store.unlocked = some unlocked ∧
    Installed C autoPassword world unlocked.data session world'

/-- The store is a new one of the same file. -/
structure Restart (world world' : World) : Prop where
  store : world'.store = .new world.store.path
  file : world'.files world.store.path = world.files world.store.path

/-- The store is a new one, and its file is gone. -/
structure Removal (world world' : World) : Prop where
  store : world'.store = .new world.store.path
  file : world'.files world.store.path = none

/-- Moves, with a new key only if `rekeys`. -/
def Moves (C : Crates) (opens : String → World → Prop) (rekeys : Prop) : World → World → Prop :=
  Relation.ReflTransGen fun world world' =>
    Move C opens world world' ∨ rekeys ∧ Rekey C world world'

variable {opens : String → World → Prop} {rekeys : Prop}

theorem Move.moves (h : Move C opens world world') : Moves C opens rekeys world world' :=
  .single (.inl h)

theorem Rekey.moves (h : Rekey C world world') (hrekeys : rekeys) :
    Moves C opens rekeys world world' :=
  .single (.inr ⟨hrekeys, h⟩)

theorem Moves.mono {rekeys' : Prop} (h : Moves C opens rekeys world world')
    (himp : rekeys → rekeys') :
    Moves C opens rekeys' world world' := by
  refine Relation.ReflTransGen.mono (fun a b hmove => ?_) _ _ h
  rcases hmove with hmove | ⟨hrekeys, hrekey⟩
  · exact .inl hmove
  · exact .inr ⟨himp hrekeys, hrekey⟩

/-- **The rule for methods.**  What each move keeps, moves one after the other keep. -/
theorem Moves.keeps {P : World → Prop} (h : Moves C opens rekeys world world')
    (hmove : ∀ a b, P a → Move C opens a b → P b) (hrekey : rekeys → ∀ a b, P a → Rekey C a b → P b)
    (hstart : P world) : P world' := by
  induction h with
  | refl => exact hstart
  | tail _ hlast ih =>
    rcases hlast with hlast | ⟨hrekeys, hlast⟩
    · exact hmove _ _ ih hlast
    · exact hrekey hrekeys _ _ ih hlast

/-! ### The methods -/

/-- The snapshot is of the data in memory. -/
def Shows (snapshot : ConfigSnapshot) (world : World) : Prop :=
  ∃ unlocked, world.store.unlocked = some unlocked ∧
    snapshot = { data := unlocked.data, revision := world.store.revision }

theorem Installed.shows {masterPassword : String} {data : VaultData} {session : CryptoSession}
    (h : Installed C masterPassword world data session world') :
    Shows { data := data, revision := world'.store.revision } world' := by
  refine ⟨{ data := data, crypto := session }, ?_, rfl⟩
  rw [h.store]

/-- `create` makes a move. -/
theorem create_moves (masterPassword : String) :
    (create C io masterPassword).Post world
      (fun snapshot world' => Move C opens world world' ∧ Shows snapshot world')
      fun _ world' => Move C opens world world' := by
  refine (create_spec masterPassword).mono (fun snapshot world' h => ?_) fun _ _ h => .untouched h
  obtain ⟨hnone, session, hinstalled, rfl⟩ := h
  exact ⟨.created masterPassword io.env session hnone hinstalled, hinstalled.shows⟩

theorem Opened.shows {masterPassword : String} {encrypted : EncryptedVault} {data : VaultData}
    {session : CryptoSession} {snapshot : ConfigSnapshot}
    (h : Opened C io masterPassword world encrypted data session snapshot world') :
    Shows snapshot world' := by
  refine ⟨{ data := (migrateVaultData io.env.now data).1, crypto := session }, ?_, ?_⟩
  · rw [h.store]
  · rw [h.snapshot, h.store]

/-- `unlock` makes a move. -/
theorem unlock_moves (masterPassword : String) (hopens : opens masterPassword world) :
    (unlock C io masterPassword).Post world
      (fun snapshot world' => Move C opens world world' ∧ Shows snapshot world')
      fun _ world' => Move C opens world world' := by
  refine (unlock_spec masterPassword).mono (fun snapshot world' h => ?_) fun _ _ h => .untouched h
  obtain ⟨encrypted, data, session, hopened⟩ := h
  exact ⟨.opened io masterPassword encrypted data session snapshot hopens hopened, hopened.shows⟩

theorem mutation_moves (mutation : Mutation) :
    (mutation.run C io).Post world
      (fun snapshot world' => Move C opens world world' ∧ Shows snapshot world')
      fun _ world' => Move C opens world world' := by
  refine (mutation_spec mutation).mono (fun snapshot world' h => ?_) fun _ _ h => .untouched h
  obtain ⟨unlocked, data, hunlocked, hgives, hdata, ⟨hsame, rfl, hrevision⟩ | hchange⟩ := h
  · rw [hsame]
    refine ⟨.untouched (.refl world), unlocked, hunlocked, ?_⟩
    rw [← hdata, ← hrevision]
  · refine ⟨.changed io.env mutation unlocked data snapshot hunlocked hgives hchange,
      { data := data, crypto := unlocked.crypto }, ?_, ?_⟩
    · rw [hchange.store]
    · rw [hchange.snapshot, hchange.store]

/-- The encryption under the internal password is a new key, or nothing. -/
theorem encryptFast_moves {unlocked : UnlockedVault}
    (hunlocked : world.store.unlocked = some unlocked) :
    (encryptFast C io unlocked.data).Post world
      (fun _ world' => Rekey C world world' ∧
        Shows { data := unlocked.data, revision := world'.store.revision } world')
      fun _ world' => Move C opens world world' := by
  refine (encryptFast_spec unlocked.data).mono (fun _ world' h => ?_) fun _ _ h => .untouched h
  obtain ⟨session, _, _, hinstalled⟩ := h
  exact ⟨⟨unlocked, session, hunlocked, hinstalled⟩, hinstalled.shows⟩

/-- `migrate` makes a move and then gives a new key. -/
theorem migrate_moves {io' : Io} (oldPassword : String) (hopens : opens oldPassword world) :
    (migrate C io io' oldPassword).Post world
      (fun snapshot world' => Moves C opens True world world' ∧ Shows snapshot world')
      fun _ world' => Moves C opens True world world' := by
  refine .bind ((unlock_moves oldPassword hopens).mono (fun _ world₁ h => ?_) fun _ _ h => h.moves)
  have hfirst : Moves C opens True world world₁ := h.1.moves
  refine .bind (unlockedVault_post (fun unlocked hunlocked => ?_) fun _ => hfirst)
  refine .bind ((@encryptFast_moves _ _ _ opens _ hunlocked).mono (fun _ world₂ h₂ => ?_)
    fun _ _ h₂ => ?_)
  · exact .gets ⟨hfirst.trans (h₂.1.moves trivial), h₂.2⟩
  · exact hfirst.trans h₂.moves

/-- The file of the store is one that `upgrade_to_fast_kdf_if_needed` gives a new key. -/
def SlowFile (C : Crates) (world : World) : Prop :=
  ∃ content encrypted session, world.files world.store.path = some content ∧
    decodeVault C content = .ok encrypted ∧ session.params = encrypted.params ∧
      CryptoSession.isSlow session = true

/-- `upgrade_to_fast_kdf_if_needed` gives a new key to a slow session. -/
theorem upgrade_moves :
    (upgradeToFastKdfIfNeeded C io).Post world
      (fun _ world' => Moves C opens (∃ unlocked, world.store.unlocked = some unlocked ∧
        unlocked.crypto.isSlow = true) world world')
      fun _ _ => False := by
  refine .bind (.gets ?_)
  split
  · exact .pure .refl
  · rename_i unlocked hfilter
    obtain ⟨hunlocked, hslow⟩ := Option.filter_eq_some_iff.mp hfilter
    refine .ignore ((@encryptFast_moves _ _ _ opens _ hunlocked).mono (fun _ _ h => ?_)
      fun _ _ h => h.moves)
    exact h.1.moves ⟨unlocked, hunlocked, hslow⟩

/-- `auto_open` makes a move, and gives a new key to a slow file. -/
theorem autoOpen_moves {io' : Io} (hopens : opens autoPassword world) :
    (autoOpen C io io').Post world (fun _ => Moves C opens (SlowFile C world) world)
      fun _ => Moves C opens (SlowFile C world) world := by
  refine .bind (.gets ?_)
  split_ifs
  · exact .bind
      ((create_moves autoPassword).mono (fun _ _ h => .pure h.1.moves) fun _ _ h => h.moves)
  · refine .handle (.bind ((unlock_spec autoPassword).mono (fun snapshot world₁ h => ?_) ?_))
    · obtain ⟨encrypted, data, session, hopened⟩ := h
      have hmove : Move C opens world world₁ :=
        .opened io autoPassword encrypted data session snapshot hopens hopened
      refine .bind
        ((@upgrade_moves _ _ _ opens).mono (fun _ world₂ h₂ => .pure ?_) fun _ _ h => h.elim)
      refine hmove.moves.trans (h₂.mono ?_)
      rintro ⟨unlocked, hunlocked, hslow⟩
      obtain ⟨content, hcontent, hdecode⟩ := hopened.content
      rw [hopened.store] at hunlocked
      obtain rfl := Option.some.inj hunlocked
      exact ⟨content, encrypted, session, hcontent, hdecode,
        (decryptWithPassword_session hopened.opens).2.2, hslow⟩
    · intro e world₁ h
      have hmove : Move C opens world world₁ := .untouched h
      exact ⟨fun _ _ => hmove.moves, fun _ _ => hmove.moves⟩

/-- `vault_skip_migration` fails before it has done anything, or removes the file and makes a
move. -/
theorem skipMigration_moves :
    (skipMigration C io).Post world
      (fun _ world' => world' = world ∨ ∃ removed, Removal world removed ∧
        Move C opens removed world')
      fun _ world' => world' = world ∨ ∃ removed, Removal world removed ∧
        Move C opens removed world' := by
  refine .bind (.gets (.bind (sysCall_post (fun _ => ?_) fun _ => .inl rfl)))
  have hremoved : Removal world
      { store := .new world.store.path
        files := Function.update world.files world.store.path none } :=
    ⟨rfl, Function.update_self _ _ _⟩
  refine .bind
    (.modify ((@create_moves _ _ _ opens autoPassword).mono (fun _ _ h => ?_) fun _ _ h => ?_))
  · exact .inr ⟨_, hremoved, h.1⟩
  · exact .inr ⟨_, hremoved, h⟩

/-! ### Runs -/

/-- What can happen to the store: its methods, an end of the program that leaves its
file, and changes of other files. -/
inductive StoreEvent where
  | create (io : Io) (masterPassword : String)
  | unlock (io : Io) (masterPassword : String)
  | migrate (io io' : Io) (oldPassword : String)
  | autoOpen (io io' : Io)
  | skipMigration (io : Io)
  | mutate (io : Io) (mutation : Mutation)
  | restart
  | others (path : String) (content : Option (List UInt8))

/-- The file of the store is its own. -/
def World.enabled (world : World) : StoreEvent → Prop
  | .others path _ => path ≠ world.store.path
  | _ => True

instance (world : World) (event : StoreEvent) : Decidable (world.enabled event) := by
  cases event <;> unfold World.enabled <;> infer_instance

/-- What an event leaves. -/
def World.next (C : Crates) (world : World) : StoreEvent → World
  | .create io masterPassword => (Vault.create C io masterPassword world).2
  | .unlock io masterPassword => (Vault.unlock C io masterPassword world).2
  | .migrate io io' oldPassword => (Vault.migrate C io io' oldPassword world).2
  | .autoOpen io io' => (Vault.autoOpen C io io' world).2
  | .skipMigration io => (Vault.skipMigration C io world).2
  | .mutate io mutation => (mutation.run C io world).2
  | .restart => { world with store := .new world.store.path }
  | .others path content => { world with files := Function.update world.files path content }

/-- The store of the file at `path`, from its first start on. -/
def vaultStore (C : Crates) (path : String) : Machine World StoreEvent :=
  .guarded { store := .new path, files := fun _ => none } World.enabled (World.next C)

/-- The event may give the workspace a new key. -/
def Rekeys (C : Crates) (world : World) : StoreEvent → Prop
  | .migrate .. => True
  | .autoOpen .. => SlowFile C world
  | _ => False

/-- Every password may open the store. -/
def anyPassword (_ : String) (_ : World) : Prop :=
  True

/-- **What an event does**: it restarts the store, or removes the file and then makes a move, or it
makes moves. -/
theorem moves_of_step {path : String} {event : StoreEvent}
    (hstep : (vaultStore C path).step world event = some world') :
    Restart world world' ∨
      (∃ io removed, event = .skipMigration io ∧ Removal world removed ∧
        Move C anyPassword removed world') ∨
        Moves C anyPassword (Rekeys C world event) world world' := by
  obtain ⟨henabled, rfl⟩ := Machine.guarded_step.mp hstep
  cases event with
  | create io masterPassword =>
    have hpost := (@create_moves C io world anyPassword masterPassword).mono
      (fun _ _ h => h.1) fun _ _ h => h
    exact .inr (.inr hpost.after.moves)
  | unlock io masterPassword =>
    have hpost := (@unlock_moves C io world anyPassword masterPassword trivial).mono
      (fun _ _ h => h.1) fun _ _ h => h
    exact .inr (.inr hpost.after.moves)
  | migrate io io' oldPassword =>
    have hpost := (@migrate_moves C io world anyPassword io' oldPassword trivial).mono
      (fun _ _ h => h.1) fun _ _ h => h
    exact .inr (.inr hpost.after)
  | autoOpen io io' => exact .inr (.inr (autoOpen_moves trivial).after)
  | skipMigration io =>
    rcases (@skipMigration_moves C io world anyPassword).after with hsame |
      ⟨removed, hremoved, hmove⟩
    · refine .inr (.inr ?_)
      rw [World.next, hsame]
      exact .refl
    · exact .inr (.inl ⟨io, removed, rfl, hremoved, hmove⟩)
  | mutate io mutation =>
    have hpost := (@mutation_moves C io world anyPassword mutation).mono
      (fun _ _ h => h.1) fun _ _ h => h
    exact .inr (.inr hpost.after.moves)
  | restart => exact .inl ⟨rfl, rfl⟩
  | others other content =>
    have hmove : Move C anyPassword world (world.next C (.others other content)) :=
      .untouched ⟨rfl, Function.update_of_ne (Ne.symm henabled) _ _⟩
    exact .inr (.inr hmove.moves)

end Vault
end HelmSsh
