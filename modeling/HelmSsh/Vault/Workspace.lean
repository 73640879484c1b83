/-
# The runs of a workspace

Every operation of `VaultOp` keeps a workspace consistent (`Consistent.update`), and so
does the import of an earlier state.  `vault_integrity` says what follows for the runs of
`workspace`, in which operations that succeed or fail come in any order with imports.

`Uuid::new_v4()` gives an id that was not given before: that is the guard of a step.
-/

import HelmSsh.Machine
import HelmSsh.Vault.References

namespace HelmSsh
namespace Vault

open Config

variable {env : Env} {issued : List String} {data data' : VaultData}

/-! ### Every operation -/

theorem Consistent.cons (h : Consistent issued data) (id : String) :
    Consistent (id :: issued) data :=
  h.mono fun _ => List.mem_cons_of_mem id

/-- **Every operation keeps the workspace consistent**, when its new id is one that was
not issued before. -/
theorem Consistent.update (h : Consistent issued data) (hfresh : env.newId ∉ issued)
    (op : VaultOp) (hok : op.update env data = .ok data') :
    Consistent (env.newId :: issued) data' := by
  cases op with
  | settingsProxyUpdate => exact (settingsProxyUpdate_ok h hok).cons _
  | settingsBackupUpdate => exact (settingsBackupUpdate_ok h hok).cons _
  | quickCommandUpsert => exact (quickCommandUpsert_ok h hok).cons _
  | quickCommandDelete => exact (quickCommandDelete_ok h hok).cons _
  | settingsAiApiUpdate => exact (settingsAiApiUpdate_ok h hok).cons _
  | settingsAiApiKeyUpdate => exact (settingsAiApiKeyUpdate_ok h hok).cons _
  | settingsIgnoreUpdateVersion => exact (settingsIgnoreUpdateVersion_ok h hok).cons _
  | connectionSectionStateUpdate => exact (connectionSectionStateUpdate_ok h hok).cons _
  | createTunnel => exact (createTunnel_ok h hok).cons _
  | setTunnelEnabled => exact (updateTunnelById_ok h hok h.tunnels).cons _
  | updateTunnel => exact (updateTunnel_ok h hok).cons _
  | deleteTunnel => exact (deleteTunnel_ok h hok).cons _
  | replaceBackupRecords =>
    obtain rfl := Except.ok.inj hok
    exact (h.withRecords _).cons _
  | deleteBackupRecord =>
    obtain ⟨_, _, hok⟩ := bind_ok hok
    obtain rfl := Except.ok.inj hok
    exact (h.withRecords _).cons _
  | trustHostKey => exact (trustHostKey_ok h hok).cons _
  | createGroup => exact (createGroup_ok h hok).cons _
  | updateGroup => exact (updateGroup_ok h hok).cons _
  | deleteGroup => exact (deleteGroup_ok h hok).cons _
  | createSession => exact createSession_ok h hfresh hok
  | updateSession => exact (updateSession_ok h hok).cons _
  | setSessionFavorite | markSessionRecent | clearSessionRecent =>
    exact (updateSessionById_ok h hok (fun _ => rfl) (fun _ => rfl) fun _ => rfl).cons _
  | deleteSession => exact (deleteSession_ok h hok).cons _

/-- The migration that an import makes has nothing to do on a consistent workspace but
its version. -/
theorem Consistent.migrate (h : Consistent issued data) (now : String) :
    Consistent issued (migrateVaultData now data).1 := by
  have hversion : Consistent issued (migrateSessionIds data) := by
    rw [migrateSessionIds]
    have hset : Consistent issued
        (if data.version < vaultDataVersion then { data with version := vaultDataVersion }
          else data) := by
      split
      · exact { h with }
      · exact h
    dsimp only
    generalize (if data.version < vaultDataVersion then { data with version := vaultDataVersion }
      else data) = data₁ at hset ⊢
    split_ifs with hnil
    · rw [hset.api.mirror, hnil]
      exact hset
    · exact hset
  rw [migrateVaultData]
  generalize migrateSessionIds data = data₁ at hversion ⊢
  have hmirror : Consistent issued (migrateMirror data₁) := by
    refine hversion.withSettings ?_ hversion.sections hversion.quickCommands
    refine { hversion.api with mirror := rfl, autoStart := fun hauto => ?_ }
    exact hversion.api.autoStart (Bool.and_eq_true_iff.mp hauto).1
  split_ifs
  · exact h
  · exact hmirror.touch now

/-! ### Runs -/

/-- The outcome of an operation on the data when everything around it succeeds. -/
def VaultOp.perform (env : Env) (op : VaultOp) (data : VaultData) : AppResult VaultData := do
  op.check
  if op.isNoop data then .ok data else do
    let data ← op.update env data
    return data.touch env.now

/-- A workspace, with the states it has had and the ids that were issued. -/
structure Workspace where
  data : VaultData
  earlier : List VaultData
  issued : List String

/-- What can happen to a workspace: an operation, or the import of an earlier state. -/
inductive WorkspaceEvent where
  | operate (env : Env) (op : VaultOp)
  | restore (now : String) (data : VaultData)

/-- The workspace has other data. -/
def Workspace.replace (s : Workspace) (data : VaultData) : Workspace :=
  { s with data := data, earlier := data :: s.earlier }

/-- A new id is one that was not issued before, and an imported state is an earlier one. -/
def Workspace.enabled (s : Workspace) : WorkspaceEvent → Prop
  | .operate env _ => env.newId ∉ s.issued
  | .restore _ data => data ∈ s.earlier

instance (s : Workspace) (event : WorkspaceEvent) : Decidable (s.enabled event) := by
  cases event <;> unfold Workspace.enabled <;> infer_instance

/-- An operation that fails leaves the data alone. -/
def Workspace.next (s : Workspace) : WorkspaceEvent → Workspace
  | .operate env op =>
    let s := { s with issued := env.newId :: s.issued }
    match op.perform env s.data with
    | .ok data => s.replace data
    | .error _ => s
  | .restore now data => s.replace (migrateVaultData now data).1

/-- A workspace from its creation on. -/
def workspace (now id : String) : Machine Workspace WorkspaceEvent :=
  .guarded
    { data := .withDefaultGroup now id, earlier := [.withDefaultGroup now id], issued := [id] }
    Workspace.enabled Workspace.next

/-- An operation that succeeds keeps the workspace consistent. -/
theorem Consistent.perform (h : Consistent issued data) (hfresh : env.newId ∉ issued)
    (op : VaultOp) (hok : op.perform env data = .ok data') :
    Consistent (env.newId :: issued) data' := by
  obtain ⟨_, _, hok⟩ := bind_ok hok
  split_ifs at hok
  · obtain rfl := Except.ok.inj hok
    exact h.cons _
  · obtain ⟨updated, hupdate, hok⟩ := bind_ok hok
    obtain rfl := Except.ok.inj hok
    exact (h.update hfresh op hupdate).touch _

/-- The present state and the earlier ones are consistent. -/
structure Workspace.Inv (s : Workspace) : Prop where
  current : Consistent s.issued s.data
  earlier : ∀ data ∈ s.earlier, Consistent s.issued data

/-- Consistent data can take the place of the present ones. -/
theorem Workspace.Inv.replace {s : Workspace} (h : s.Inv) (hdata : Consistent s.issued data) :
    (s.replace data).Inv where
  current := hdata
  earlier := by
    intro old hold
    rcases List.mem_cons.mp hold with rfl | hold
    · exact hdata
    · exact h.earlier old hold

theorem Workspace.Inv.issue {s : Workspace} (h : s.Inv) (id : String) :
    Workspace.Inv { s with issued := id :: s.issued } where
  current := h.current.cons id
  earlier := fun data hdata => (h.earlier data hdata).cons id

/-- **One step keeps the workspace consistent.** -/
theorem Workspace.Inv.step {now id : String} {s s' : Workspace} {event : WorkspaceEvent}
    (h : s.Inv) (hstep : (workspace now id).step s event = some s') : s'.Inv := by
  obtain ⟨henabled, rfl⟩ := Machine.guarded_step.mp hstep
  cases event with
  | operate env op =>
    rw [Workspace.next]
    dsimp only
    split
    · rename_i data hok
      exact (h.issue env.newId).replace (h.current.perform henabled op hok)
    · exact h.issue env.newId
  | restore now data => exact h.replace ((h.earlier data henabled).migrate now)

/-- **Referential integrity of the vault.**  From the creation of a workspace on, after
operations and imports of earlier states in any order, all references of its data lead
to something, what must be unique is unique, and the bounds are kept. -/
theorem vault_integrity (now id : String) {events : List WorkspaceEvent} {s : Workspace}
    (h : (workspace now id).run events = some s) : Integrity s.data := by
  have hinv : s.Inv := by
    refine Machine.run_invariant ?_ (fun s event s' hs hstep => hs.step hstep) h
    refine ⟨consistent_withDefaultGroup now id, fun data hdata => ?_⟩
    obtain rfl := List.mem_singleton.mp hdata
    exact consistent_withDefaultGroup now id
  exact hinv.current.toIntegrity

/-- A session in a group, for the run below. -/
def exampleSession (groupId : String) : SessionInput :=
  { name := "web", groupId := some groupId, host := "web.example", port := 22, username := "root",
    auth :=
      { method := .password, password := some "secret", privateKeyPath := none,
        importedPrivateKey := none, privateKeyPassphrase := none },
    ssh := {}, defaultPath := "", tags := [], note := none, terminal := {}, sftp := {} }

/-- A tunnel through a session, for the run below. -/
def exampleTunnel (sessionId : String) : TunnelInput :=
  { name := "db", sessionId := sessionId, forwardType := "local", bindHost := "127.0.0.1",
    bindPort := 0, targetHost := "db", targetPort := 5432 }

/-- What the operations of the run below take from outside. -/
def exampleEnv (id : String) : Env :=
  { now := "t", instant := 0, newId := id, parseTime := fun _ => none }

/-- A session with a tunnel is authorized for the API and loses its group. -/
def exampleRun : List WorkspaceEvent :=
  [.operate (exampleEnv "g1") (.createGroup ⟨"prod", some "g0"⟩),
    .operate (exampleEnv "s1") (.createSession (exampleSession "g1")),
    .operate (exampleEnv "t1") (.createTunnel (exampleTunnel "s1")),
    .operate (exampleEnv "u1") (.settingsAiApiUpdate ⟨["s1"], some 8080, true⟩),
    .operate (exampleEnv "u2") (.deleteGroup "g1")]

/-- The run is possible, and leaves the session in the default group. -/
theorem vault_integrity_exampleRun :
    ∃ s, (workspace "t" "g0").run exampleRun = some s ∧ s.data.tunnels.length = 1 ∧
      s.data.sessions.map SessionConfig.groupId = [some "g0"] ∧ Integrity s.data := by
  refine ⟨_, rfl, ?_, ?_, ?_⟩
  · decide
  · decide
  · have hrun : (workspace "t" "g0").run exampleRun = some _ := rfl
    exact vault_integrity "t" "g0" hrun

end Vault
end HelmSsh
