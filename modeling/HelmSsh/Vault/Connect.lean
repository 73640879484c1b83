/-
# What a connection is opened with

`build_session_for_connect` of `src-tauri/src/commands/mod.rs` reads from the workspace what a
connection to a session needs: the session, with the global proxy applied, and the known host of
its address.  The desktop commands and the REST handlers open their connections with it, and
`session_matches_current_connection_config` asks afterwards whether it still reads the same.

An address is found in the known hosts by host and port.  `knownHost_upsertKnownHost` says what a
confirmation does there: its own address has the new entry, and no other address is touched.
-/

import HelmSsh.Vault.Operations

namespace HelmSsh
namespace Vault

open Config

/-! ### Reading the workspace -/

/-- `VaultStore::session`. -/
def findSession (data : VaultData) (sessionId : String) : Option SessionConfig :=
  data.sessions.find? fun session => session.id = sessionId

/-- The entry is of the address. -/
def isKnownHost (host : String) (port : UInt16) (entry : KnownHostEntry) : Bool :=
  entry.host = host && entry.port = port

/-- `VaultStore::known_host`. -/
def knownHost (data : VaultData) (host : String) (port : UInt16) : Option KnownHostEntry :=
  data.knownHosts.find? (isKnownHost host port)

/-- `PROXY_KIND_DIRECT`. -/
def proxyKindDirect : String := "direct"

/-- `apply_global_proxy`. -/
def applyGlobalProxy (settings : AppSettings) (session : SessionConfig) : SessionConfig :=
  match session.ssh.proxy with
  | some proxy =>
    if proxy.kind = proxyKindDirect then { session with ssh := { session.ssh with proxy := none } }
    else session
  | none =>
    match settings.proxy with
    | some proxy =>
      if proxy.enabled = true then
        { session with
          ssh :=
            { session.ssh with
              proxy := some { kind := proxy.kind, host := proxy.host, port := proxy.port } } }
      else session
    | none => session

/-- `build_session_for_connect`, on an unlocked workspace. -/
def buildSessionForConnect (data : VaultData) (sessionId : String) :
    AppResult (SessionConfig × Option KnownHostEntry) :=
  match findSession data sessionId with
  | none => .error (.notFound s!"会话 {sessionId}")
  | some session =>
    .ok (applyGlobalProxy data.settings session, knownHost data session.host session.port)

/-- `session_matches_current_connection_config`. -/
def sessionMatchesCurrentConnectionConfig (data : VaultData) (expected : SessionConfig) :
    AppResult Bool := do
  let (current, _) ← buildSessionForConnect data expected.id
  return current.host = expected.host && current.port = expected.port &&
    current.username = expected.username && current.auth = expected.auth &&
    current.ssh = expected.ssh

/-- The proxy is the one thing of a session that the global one changes. -/
theorem applyGlobalProxy_eq (settings : AppSettings) (session : SessionConfig) :
    ∃ proxy, applyGlobalProxy settings session =
      { session with ssh := { session.ssh with proxy := proxy } } := by
  rw [applyGlobalProxy]
  split
  · split_ifs
    · exact ⟨none, rfl⟩
    · exact ⟨session.ssh.proxy, rfl⟩
  · split
    · split_ifs
      · exact ⟨_, rfl⟩
      · exact ⟨session.ssh.proxy, rfl⟩
    · exact ⟨session.ssh.proxy, rfl⟩

theorem buildSessionForConnect_ok {data : VaultData} {sessionId : String} {session : SessionConfig}
    {trusted : Option KnownHostEntry}
    (h : buildSessionForConnect data sessionId = .ok (session, trusted)) :
    ∃ stored ∈ data.sessions, stored.id = sessionId ∧
      session = applyGlobalProxy data.settings stored ∧
      trusted = knownHost data stored.host stored.port := by
  rw [buildSessionForConnect] at h
  split at h
  · cases h
  · rename_i stored hfind
    rw [findSession] at hfind
    obtain ⟨rfl, rfl⟩ := Prod.mk.inj (Except.ok.inj h)
    refine ⟨stored, List.mem_of_find?_eq_some hfind, ?_, rfl, rfl⟩
    exact of_decide_eq_true (List.find?_some hfind :)

/-! ### A confirmation -/

theorem isKnownHost_iff {host : String} {port : UInt16} {entry : KnownHostEntry} :
    isKnownHost host port entry = true ↔ entry.host = host ∧ entry.port = port := by
  rw [isKnownHost, Bool.and_eq_true, decide_eq_true_eq, decide_eq_true_eq]

/-- **A confirmation is of its address alone**: the known host there is the new entry, and those
of all other addresses are as they were. -/
theorem find?_upsertKnownHost (entry : KnownHostEntry) (knownHosts : List KnownHostEntry)
    (host : String) (port : UInt16) :
    (upsertKnownHost entry knownHosts).find? (isKnownHost host port) =
      if entry.host = host ∧ entry.port = port then some entry
      else knownHosts.find? (isKnownHost host port) := by
  rw [upsertKnownHost]
  cases hmodify : FirstMatch.modify
    (fun known => known.host = entry.host && known.port = entry.port)
      (fun _ => entry) knownHosts with
  | some changed =>
    rw [Option.getD_some]
    split_ifs with hsame
    · obtain ⟨rfl, rfl⟩ := hsame
      exact FirstMatch.find?_modify_of_match hmodify (fun _ => rfl) (isKnownHost_iff.mpr ⟨rfl, rfl⟩)
    · refine FirstMatch.find?_modify_of_other hmodify (fun known hold => ?_) fun _ _ => ?_
      · obtain ⟨hhost, hport⟩ := isKnownHost_iff.mp hold
        refine Bool.eq_false_iff.mpr fun hknown => hsame ?_
        rw [← hhost, ← hport]
        exact isKnownHost_iff.mp hknown
      · exact Bool.eq_false_iff.mpr fun hnew => hsame (isKnownHost_iff.mp hnew)
  | none =>
    rw [Option.getD_none, List.find?_append, List.find?_singleton]
    split_ifs with hentry hsame hsame
    · obtain ⟨rfl, rfl⟩ := hsame
      have hnone : knownHosts.find? (isKnownHost entry.host entry.port) = none :=
        List.find?_eq_none.mpr fun known hknown =>
          Bool.eq_false_iff.mp (FirstMatch.modify_eq_none hmodify known hknown)
      rw [hnone, Option.none_or]
    · exact absurd (isKnownHost_iff.mp hentry) hsame
    · exact absurd (isKnownHost_iff.mpr hsame) hentry
    · rw [Option.or_none]

end Vault
end HelmSsh
