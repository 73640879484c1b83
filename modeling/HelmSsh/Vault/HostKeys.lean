/-
# Trust in a host key is bound to its address

A run of `hostKeys` is one of the workspace: its operations, imports and reopenings, and attempts
to connect, each with what it has read from the workspace (`Attempt`).  Beside them stands what was
`confirmed` last for each address: what `ssh_trust_host_key` was called for.

`trust_host_key` (`src-tauri/src/vault.rs`) writes the fingerprint twice, to the known host of the
address and into the session, and refuses a confirmation for an address that the session has left
("会话地址已变化，请重新连接并确认主机密钥").  But `SessionConfig::update` (`src-tauri/src/
config.rs`) moves the session to another address with the fingerprint that the form hands on, and
where that address is no known host, the connection falls back on it
(`hostKey_accepted_elsewhere`).

`hostKey_bound`: while no edit does that, no import brings keys that were not confirmed here, and no
confirmation changes the key of an address under an attempt, a key is accepted only if it is the
one confirmed last for its address, and any other is refused and asked about.
-/

import HelmSsh.Remote.HostKey
import HelmSsh.Vault.Workspace

namespace HelmSsh
namespace Vault

open Config Remote

variable {env : Env} {data data' : VaultData}

/-! ### Runs -/

/-- What was confirmed last for each address. -/
abbrev Confirmed := String → UInt16 → Option String

/-- A fingerprint was confirmed for an address. -/
def Confirmed.confirm (confirmed : Confirmed) (host : String) (port : UInt16)
    (fingerprint : String) : Confirmed := fun host' port' =>
  if host' = host ∧ port' = port then some fingerprint else confirmed host' port'

/-- An attempt to connect, with what it has read. -/
structure Attempt where
  session : SessionConfig
  trusted : Option KnownHostEntry
  deriving DecidableEq

/-- The client of an attempt. -/
def Attempt.client (attempt : Attempt) : RemoteClient :=
  .new attempt.session attempt.trusted

/-- A workspace, with the confirmations so far and the attempts under way. -/
structure TrustState where
  data : VaultData
  confirmed : Confirmed
  attempts : List Attempt

/-- What can happen: an operation, an import, the end of the program and its next start, an attempt
that begins, and one that ends. -/
inductive TrustEvent where
  | operate (env : Env) (op : VaultOp)
  | restore (now : String) (data : VaultData)
  | reopen (now : String)
  | connect (sessionId : String)
  | settle (i : ℕ)

/-- What an operation that succeeds confirms. -/
def VaultOp.confirms (confirmed : Confirmed) : VaultOp → Confirmed
  | .trustHostKey _ host port _ fingerprint => confirmed.confirm host port fingerprint
  | _ => confirmed

/-- What an event leaves. -/
def TrustState.next (s : TrustState) : TrustEvent → TrustState
  | .operate env op =>
    match op.perform env s.data with
    | .ok data => { s with data := data, confirmed := op.confirms s.confirmed }
    | .error _ => s
  | .restore now data => { s with data := (migrateVaultData now data).1 }
  | .reopen now => { s with data := (migrateVaultData now s.data).1, attempts := [] }
  | .connect sessionId =>
    match buildSessionForConnect s.data sessionId with
    | .ok (session, trusted) => { s with attempts := ⟨session, trusted⟩ :: s.attempts }
    | .error _ => s
  | .settle i => { s with attempts := s.attempts.eraseIdx i }

/-- A workspace and its connections, from its creation on. -/
def hostKeys (now id : String) : Machine TrustState TrustEvent where
  init := { data := .withDefaultGroup now id, confirmed := fun _ _ => none, attempts := [] }
  step s event := some (s.next event)

/-! ### What is expected -/

/-- What is expected of a session: the key of the known host of its address, or else its own. -/
def expectedOf (data : VaultData) (host : String) (port : UInt16) (ssh : SshOptions) :
    Option String :=
  ((knownHost data host port).map KnownHostEntry.fingerprint).or ssh.hostKeyFingerprint

/-- Nothing is expected, or what was confirmed last for the address. -/
def Bound (confirmed : Confirmed) (host : String) (port : UInt16) (expected : Option String) :
    Prop :=
  expected = none ∨ expected = confirmed host port

instance (confirmed : Confirmed) (host : String) (port : UInt16) (expected : Option String) :
    Decidable (Bound confirmed host port expected) :=
  inferInstanceAs (Decidable (_ ∨ _))

/-- All that the data make an attempt expect was confirmed last for its address. -/
structure DataBound (confirmed : Confirmed) (data : VaultData) : Prop where
  known : ∀ entry ∈ data.knownHosts, Bound confirmed entry.host entry.port
    ((knownHost data entry.host entry.port).map KnownHostEntry.fingerprint)
  sessions : ∀ session ∈ data.sessions, Bound confirmed session.host session.port
    (expectedOf data session.host session.port session.ssh)

instance (confirmed : Confirmed) (data : VaultData) : Decidable (DataBound confirmed data) :=
  decidable_of_iff (_ ∧ _) ⟨fun h => ⟨h.1, h.2⟩, fun h => ⟨h.known, h.sessions⟩⟩

variable {confirmed : Confirmed}

/-- Every known host was confirmed last for its address. -/
theorem DataBound.knownHost (h : DataBound confirmed data) (host : String) (port : UInt16) :
    Bound confirmed host port
      ((Vault.knownHost data host port).map KnownHostEntry.fingerprint) := by
  cases hfind : Vault.knownHost data host port with
  | none => exact .inl rfl
  | some entry =>
    rw [Vault.knownHost] at hfind
    obtain ⟨rfl, rfl⟩ := isKnownHost_iff.mp (List.find?_some hfind)
    have hentry := h.known entry (List.mem_of_find?_eq_some hfind)
    rw [Vault.knownHost, hfind] at hentry
    exact hentry

/-- The data expect nothing new: the known hosts are the same, and each session has the address and
the options of one that was there. -/
structure SameAddresses (data data' : VaultData) : Prop where
  knownHosts : data'.knownHosts = data.knownHosts
  sessions : ∀ session' ∈ data'.sessions, ∃ session ∈ data.sessions,
    session'.host = session.host ∧ session'.port = session.port ∧ session'.ssh = session.ssh

theorem sameAddresses_of_eq (hknown : data'.knownHosts = data.knownHosts)
    (hsessions : data'.sessions = data.sessions) : SameAddresses data data' := by
  refine ⟨hknown, fun session hsession => ⟨session, ?_, rfl, rfl, rfl⟩⟩
  rw [← hsessions]
  exact hsession

theorem DataBound.same (h : DataBound confirmed data) (hsame : SameAddresses data data') :
    DataBound confirmed data' := by
  have hfind : ∀ host port, Vault.knownHost data' host port = Vault.knownHost data host port := by
    intro host port
    rw [Vault.knownHost, hsame.knownHosts, Vault.knownHost]
  refine ⟨fun entry _ => ?_, fun session' hsession' => ?_⟩
  · rw [hfind]
    exact h.knownHost entry.host entry.port
  · obtain ⟨session, hsession, hhost, hport, hssh⟩ := hsame.sessions session' hsession'
    rw [expectedOf, hfind, hhost, hport, hssh]
    exact h.sessions session hsession

/-! ### The operations -/

/-- The operation writes no address and no key. -/
def VaultOp.Neutral : VaultOp → Prop
  | .trustHostKey .. | .createSession _ | .updateSession .. => False
  | _ => True

/-- A change of one session that keeps its address and its options. -/
theorem updateSessionById_same {sessionId : String} {f : SessionConfig → SessionConfig}
    (hf : ∀ session, (f session).host = session.host ∧ (f session).port = session.port ∧
      (f session).ssh = session.ssh)
    (hok : updateSessionById sessionId f data = .ok data') : SameAddresses data data' := by
  rw [updateSessionById] at hok
  split at hok
  · rename_i sessions hmodify
    obtain rfl := Except.ok.inj hok
    refine ⟨rfl, fun session' hsession' => ?_⟩
    rcases FirstMatch.mem_modify hmodify hsession' with hold | ⟨session, hsession, _, rfl⟩
    · exact ⟨session', hold, rfl, rfl, rfl⟩
    · exact ⟨session, hsession, hf session⟩
  · cases hok

theorem updateTunnelById_same {tunnelId : String} {f : TunnelConfig → TunnelConfig}
    (hok : updateTunnelById tunnelId f data = .ok data') : SameAddresses data data' := by
  rw [updateTunnelById] at hok
  split at hok
  · obtain rfl := Except.ok.inj hok
    exact sameAddresses_of_eq rfl rfl
  · cases hok

/-- A group that goes leaves the addresses of its sessions. -/
theorem deleteGroup_same {groupId : String} (hok : deleteGroup groupId data = .ok data') :
    SameAddresses data data' := by
  obtain ⟨_, _, hok⟩ := bind_ok hok
  obtain ⟨_, _, hok⟩ := bind_ok hok
  obtain rfl := Except.ok.inj hok
  refine ⟨rfl, fun session' hsession' => ?_⟩
  obtain ⟨session, hsession, rfl⟩ := List.mem_map.mp hsession'
  refine ⟨session, hsession, ?_⟩
  split_ifs
  · exact ⟨rfl, rfl, rfl⟩
  · exact ⟨rfl, rfl, rfl⟩

/-- **An operation that writes no address and no key** makes the data expect nothing new. -/
theorem VaultOp.Neutral.same {op : VaultOp} (hneutral : op.Neutral)
    (hok : op.update env data = .ok data') : SameAddresses data data' := by
  cases op with
  | trustHostKey => exact hneutral.elim
  | createSession => exact hneutral.elim
  | updateSession => exact hneutral.elim
  | setTunnelEnabled => exact updateTunnelById_same hok
  | updateTunnel =>
    obtain ⟨_, _, hok⟩ := bind_ok hok
    exact updateTunnelById_same hok
  | setSessionFavorite | markSessionRecent | clearSessionRecent =>
    refine updateSessionById_same (fun _ => ?_) hok
    exact ⟨rfl, rfl, rfl⟩
  | replaceBackupRecords =>
    obtain rfl := Except.ok.inj hok
    exact sameAddresses_of_eq rfl rfl
  | deleteGroup => exact deleteGroup_same hok
  | deleteSession =>
    obtain ⟨_, _, hok⟩ := bind_ok hok
    obtain rfl := Except.ok.inj hok
    exact ⟨rfl, fun session hsession => ⟨session, List.mem_of_mem_filter hsession, rfl, rfl, rfl⟩⟩
  | updateGroup =>
    obtain ⟨_, _, hok⟩ := bind_ok hok
    split at hok
    · obtain rfl := Except.ok.inj hok
      exact sameAddresses_of_eq rfl rfl
    · cases hok
  | quickCommandDelete =>
    obtain ⟨_, _, hok⟩ := bind_ok hok
    obtain ⟨_, _, hok⟩ := bind_ok hok
    obtain rfl := Except.ok.inj hok
    exact sameAddresses_of_eq rfl rfl
  | settingsAiApiUpdate =>
    obtain ⟨_, _, hok⟩ := bind_ok hok
    obtain ⟨_, _, hok⟩ := bind_ok hok
    obtain ⟨_, _, hok⟩ := bind_ok hok
    obtain ⟨_, _, hok⟩ := bind_ok hok
    obtain rfl := Except.ok.inj hok
    exact sameAddresses_of_eq rfl rfl
  | settingsProxyUpdate | settingsBackupUpdate | quickCommandUpsert | settingsAiApiKeyUpdate |
    settingsIgnoreUpdateVersion | connectionSectionStateUpdate | createTunnel | deleteTunnel |
    deleteBackupRecord | createGroup =>
    obtain ⟨_, _, hok⟩ := bind_ok hok
    obtain rfl := Except.ok.inj hok
    exact sameAddresses_of_eq rfl rfl

theorem migrateVaultData_same (now : String) (data : VaultData) :
    SameAddresses data (migrateVaultData now data).1 := by
  have hids : (migrateSessionIds data).knownHosts = data.knownHosts ∧
      (migrateSessionIds data).sessions = data.sessions := by
    rw [migrateSessionIds]
    dsimp only
    split_ifs
    · split <;> exact ⟨rfl, rfl⟩
    · exact ⟨rfl, rfl⟩
    · split <;> exact ⟨rfl, rfl⟩
    · exact ⟨rfl, rfl⟩
  rw [migrateVaultData]
  split_ifs
  · exact sameAddresses_of_eq rfl rfl
  · exact sameAddresses_of_eq hids.1 hids.2

/-- What a session of the address is expected to show, when the session carries these options. -/
def SessionInput.expected (data : VaultData) (input : SessionInput) : Option String :=
  expectedOf data (Text.trim input.host) input.port input.ssh

/-- A new session is bound when what its input makes it expect is. -/
theorem DataBound.createSession (h : DataBound confirmed data) {input : SessionInput}
    (hinput : Bound confirmed (Text.trim input.host) input.port (SessionInput.expected data input))
    (hok : Vault.createSession env input data = .ok data') : DataBound confirmed data' := by
  obtain ⟨_, _, hok⟩ := bind_ok hok
  obtain rfl := Except.ok.inj hok
  refine ⟨h.known, fun session hsession => ?_⟩
  rcases List.mem_append.mp hsession with hold | hnew
  · exact h.sessions session hold
  · obtain rfl := List.mem_singleton.mp hnew
    exact hinput

/-- An edited session is bound when what its input makes it expect is. -/
theorem DataBound.updateSession (h : DataBound confirmed data) {sessionId : String}
    {input : SessionInput}
    (hinput : Bound confirmed (Text.trim input.host) input.port (SessionInput.expected data input))
    (hok : Vault.updateSession env sessionId input data = .ok data') :
    DataBound confirmed data' := by
  obtain ⟨_, _, hok⟩ := bind_ok hok
  rw [updateSessionById] at hok
  split at hok
  · rename_i sessions hmodify
    obtain rfl := Except.ok.inj hok
    refine ⟨h.known, fun session' hsession' => ?_⟩
    rcases FirstMatch.mem_modify hmodify hsession' with hold | ⟨session, _, _, rfl⟩
    · exact h.sessions session' hold
    · exact hinput
  · cases hok

/-- What is confirmed for an address is so, and for the others it is what it was. -/
theorem Confirmed.confirm_apply (confirmed : Confirmed) (host : String) (port : UInt16)
    (fingerprint host' : String) (port' : UInt16) :
    confirmed.confirm host port fingerprint host' port' =
      if host = host' ∧ port = port' then some fingerprint else confirmed host' port' := by
  rw [Confirmed.confirm]
  simp only [eq_comm]

theorem knownHost_confirm {entry : KnownHostEntry}
    (hknown : data'.knownHosts = upsertKnownHost entry data.knownHosts) (host : String)
    (port : UInt16) :
    (Vault.knownHost data' host port).map KnownHostEntry.fingerprint =
      if entry.host = host ∧ entry.port = port then some entry.fingerprint
      else (Vault.knownHost data host port).map KnownHostEntry.fingerprint := by
  rw [Vault.knownHost, hknown, find?_upsertKnownHost]
  split_ifs
  · rfl
  · rfl

/-- What `trust_host_key` does: the address has the new entry, and the key of the session, which is
at the address, is the only other thing that changes of what is expected. -/
theorem trustHostKey_spec {sessionId host : String} {port : UInt16}
    {algorithm fingerprint : String}
    (hok : Vault.trustHostKey env sessionId host port algorithm fingerprint data = .ok data') :
    data'.knownHosts = upsertKnownHost
        { host := host, port := port, algorithm := algorithm, fingerprint := fingerprint,
          trustedAt := env.now } data.knownHosts ∧
      ∀ session' ∈ data'.sessions, session' ∈ data.sessions ∨
        session'.host = host ∧ session'.port = port := by
  rw [Vault.trustHostKey] at hok
  split at hok
  · cases hok
  · rename_i session hfind
    obtain ⟨_, haddress, hok⟩ := bind_ok hok
    obtain ⟨hhost, hport⟩ := not_or.mp (refuse_ok haddress)
    obtain rfl := Except.ok.inj hok
    obtain rfl := not_not.mp hhost
    obtain rfl := not_not.mp hport
    refine ⟨rfl, fun session' hsession' => ?_⟩
    cases hmodify : FirstMatch.modify (fun session : SessionConfig => session.id = sessionId)
        (fun session => { session with
          ssh := { session.ssh with hostKeyFingerprint := some fingerprint } })
        data.sessions with
    | none =>
      rw [hmodify] at hsession'
      exact .inl hsession'
    | some sessions =>
      rw [hmodify] at hsession'
      rcases FirstMatch.mem_modify_of_find? hfind hmodify hsession' with hold | rfl
      · exact .inl hold
      · exact .inr ⟨rfl, rfl⟩

/-- **A confirmation binds the address that it is for**, and no other. -/
theorem DataBound.trustHostKey (h : DataBound confirmed data) {sessionId host : String}
    {port : UInt16} {algorithm fingerprint : String}
    (hok : Vault.trustHostKey env sessionId host port algorithm fingerprint data = .ok data') :
    DataBound (confirmed.confirm host port fingerprint) data' := by
  obtain ⟨hknown, hsessions⟩ := trustHostKey_spec hok
  refine ⟨fun entry _ => ?_, fun session' hsession' => ?_⟩
  · rw [Bound, knownHost_confirm hknown, Confirmed.confirm_apply]
    split_ifs
    · exact .inr rfl
    · exact h.knownHost entry.host entry.port
  · rw [Bound, expectedOf, knownHost_confirm hknown, Confirmed.confirm_apply]
    split_ifs with hsame
    · exact .inr rfl
    · rcases hsessions session' hsession' with hold | ⟨hhost, hport⟩
      · exact h.sessions session' hold
      · exact absurd ⟨hhost.symm, hport.symm⟩ hsame

/-! ### The condition -/

/-- The operation succeeds. -/
def VaultOp.Accepted (env : Env) (op : VaultOp) (data : VaultData) : Prop :=
  (op.perform env data).toOption.isSome

instance (env : Env) (op : VaultOp) (data : VaultData) : Decidable (op.Accepted env data) :=
  inferInstanceAs (Decidable (_ = true))

/-- What an event must not do for keys to stay bound to their addresses: give a session an address
that is no known host with a key that was not confirmed last there, change the key of an address
under an attempt, or bring in keys that were not confirmed last. -/
def TrustState.Binds (s : TrustState) : TrustEvent → Prop
  | .operate env (.createSession input) =>
    VaultOp.Accepted env (.createSession input) s.data →
      Bound s.confirmed (Text.trim input.host) input.port (SessionInput.expected s.data input)
  | .operate env (.updateSession sessionId input) =>
    VaultOp.Accepted env (.updateSession sessionId input) s.data →
      Bound s.confirmed (Text.trim input.host) input.port (SessionInput.expected s.data input)
  | .operate env (.trustHostKey sessionId host port algorithm fingerprint) =>
    VaultOp.Accepted env (.trustHostKey sessionId host port algorithm fingerprint) s.data →
      ∀ attempt ∈ s.attempts, attempt.session.host = host → attempt.session.port = port →
        attempt.client.expected = none ∨ attempt.client.expected = some fingerprint
  | .restore _ data => DataBound s.confirmed data
  | _ => True

instance (s : TrustState) (event : TrustEvent) : Decidable (s.Binds event) := by
  induction event using TrustEvent.casesOn with
  | operate env op =>
    induction op using VaultOp.casesOn <;> dsimp only [TrustState.Binds] <;> infer_instance
  | _ => dsimp only [TrustState.Binds]; infer_instance

/-- Keys are bound to their addresses: those that the data make an attempt expect, and those that
the attempts under way expect. -/
structure TrustState.Inv (s : TrustState) : Prop where
  data : DataBound s.confirmed s.data
  attempts : ∀ attempt ∈ s.attempts,
    Bound s.confirmed attempt.session.host attempt.session.port attempt.client.expected

theorem DataBound.connect (h : DataBound confirmed data) {sessionId : String}
    {session : SessionConfig} {trusted : Option KnownHostEntry}
    (hread : buildSessionForConnect data sessionId = .ok (session, trusted)) :
    Bound confirmed session.host session.port (RemoteClient.new session trusted).expected := by
  obtain ⟨stored, hstored, _, rfl, rfl⟩ := buildSessionForConnect_ok hread
  obtain ⟨proxy, hproxy⟩ := applyGlobalProxy_eq data.settings stored
  rw [RemoteClient.expected_new, hproxy]
  exact h.sessions stored hstored

theorem DataBound.touch (h : DataBound confirmed data) (now : String) :
    DataBound confirmed (data.touch now) :=
  h.same (sameAddresses_of_eq rfl rfl)

/-- **An operation keeps keys bound to their addresses**, under the condition on it. -/
theorem TrustState.Inv.operate {s : TrustState} (h : s.Inv) {op : VaultOp}
    (hbinds : s.Binds (.operate env op)) (hok : op.perform env s.data = .ok data') :
    TrustState.Inv { s with data := data', confirmed := op.confirms s.confirmed } := by
  have haccepted : op.Accepted env s.data := by
    rw [VaultOp.Accepted, hok]
    rfl
  obtain ⟨_, _, hperform⟩ := bind_ok hok
  by_cases hneutral : op.Neutral
  · have hconfirms : op.confirms s.confirmed = s.confirmed := by
      cases op <;> first | rfl | exact hneutral.elim
    rw [hconfirms]
    refine ⟨?_, h.attempts⟩
    split_ifs at hperform
    · obtain rfl := Except.ok.inj hperform
      exact h.data
    · obtain ⟨updated, hupdate, hdone⟩ := bind_ok hperform
      obtain rfl := Except.ok.inj hdone
      exact (h.data.same (hneutral.same hupdate)).touch _
  · cases op with
    | createSession input =>
      obtain ⟨updated, hupdate, hdone⟩ := bind_ok hperform
      obtain rfl := Except.ok.inj hdone
      exact ⟨(h.data.createSession (hbinds haccepted) hupdate).touch _, h.attempts⟩
    | updateSession sessionId input =>
      obtain ⟨updated, hupdate, hdone⟩ := bind_ok hperform
      obtain rfl := Except.ok.inj hdone
      exact ⟨(h.data.updateSession (hbinds haccepted) hupdate).touch _, h.attempts⟩
    | trustHostKey sessionId host port algorithm fingerprint =>
      obtain ⟨updated, hupdate, hdone⟩ := bind_ok hperform
      obtain rfl := Except.ok.inj hdone
      refine ⟨(h.data.trustHostKey hupdate).touch _, fun attempt hattempt => ?_⟩
      show Bound (s.confirmed.confirm host port fingerprint) _ _ _
      rw [Bound, Confirmed.confirm_apply]
      split_ifs with hsame
      · exact hbinds haccepted attempt hattempt hsame.1.symm hsame.2.symm
      · exact h.attempts attempt hattempt
    | _ => exact absurd trivial hneutral

/-- **One step keeps keys bound to their addresses**, under the condition on it. -/
theorem TrustState.Inv.next {s : TrustState} {event : TrustEvent} (h : s.Inv)
    (hbinds : s.Binds event) : (s.next event).Inv := by
  cases event with
  | operate env op =>
    rw [TrustState.next]
    split
    · rename_i data hok
      exact h.operate hbinds hok
    · exact h
  | restore now data => exact ⟨hbinds.same (migrateVaultData_same now data), h.attempts⟩
  | reopen now =>
    exact ⟨h.data.same (migrateVaultData_same now s.data),
      fun _ hattempt => absurd hattempt List.not_mem_nil⟩
  | connect sessionId =>
    rw [TrustState.next]
    split
    · rename_i session trusted hread
      refine ⟨h.data, fun attempt hattempt => ?_⟩
      rcases List.mem_cons.mp hattempt with rfl | hold
      · exact h.data.connect hread
      · exact h.attempts attempt hold
    · exact h
  | settle i =>
    exact ⟨h.data, fun attempt hattempt => h.attempts attempt (List.mem_of_mem_eraseIdx hattempt)⟩

theorem trustInv_init (now id : String) : (hostKeys now id).init.Inv where
  data :=
    { known := fun _ hentry => absurd hentry List.not_mem_nil
      sessions := fun _ hsession => absurd hsession List.not_mem_nil }
  attempts := fun _ hattempt => absurd hattempt List.not_mem_nil

/-- **Trust in a host key is bound to its address**, in every run whose steps all keep to the
condition: an attempt accepts a key only if it is the one that was confirmed last for exactly its
host and port; any other key is refused, and the attempt fails with a prompt for it, whichever of
the two attempts of `connect_inner` shows it. -/
theorem hostKey_bound {refused : RusshError} (hrefused : refused = .unknownKey) {now id : String}
    {events : List TrustEvent} {s : TrustState}
    (hbinds : (hostKeys now id).Meets TrustState.Binds events)
    (h : (hostKeys now id).run events = some s) {attempt : Attempt}
    (hattempt : attempt ∈ s.attempts) (key : PublicKey) :
    ((attempt.client.checkServerKey key).1 = true →
      s.confirmed attempt.session.host attempt.session.port = some key.fingerprint) ∧
    (s.confirmed attempt.session.host attempt.session.port ≠ some key.fingerprint →
      (attempt.client.checkServerKey key).1 = false ∧ ∀ first second : Peer,
        (first.Shows key →
          Prompts attempt.client key (handshake refused attempt.client first second)) ∧
        (second.Shows key → first.connectTcp = none →
          (∃ error, (connectStream refused attempt.client first).1 = .error error ∧
            isTransientConnectError error = true) →
          Prompts attempt.client key (handshake refused attempt.client first second))) := by
  have hinv : s.Inv := by
    refine Machine.run_invariant_of (trustInv_init now id) (fun s event s' hs hok hstep => ?_)
      hbinds h
    obtain rfl := Option.some.inj hstep
    exact hs.next hok
  have honly : attempt.client.expected = some key.fingerprint →
      s.confirmed attempt.session.host attempt.session.port = some key.fingerprint := by
    intro hexpected
    rcases hinv.attempts attempt hattempt with hnone | hsame
    · rw [hnone] at hexpected
      cases hexpected
    · rw [← hsame, hexpected]
  refine ⟨fun haccepted => honly (RemoteClient.checkServerKey_iff.mp haccepted), fun hother => ?_⟩
  have hexpected : attempt.client.expected ≠ some key.fingerprint := mt honly hother
  refine ⟨Bool.eq_false_iff.mpr fun h => hexpected (RemoteClient.checkServerKey_iff.mp h), ?_⟩
  rw [hrefused]
  exact handshake_prompts rfl hexpected

/-! ### Two runs -/

/-- The session of the runs below, as the form hands it on after it was confirmed. -/
def confirmedSession (host : String) : SessionInput :=
  { exampleSession "g0" with host := host, ssh := { hostKeyFingerprint := some "SHA256:web" } }

/-- A session is created, its key is confirmed, it is edited to `host`, and a connection to it
begins. -/
def editedRun (host : String) : List TrustEvent :=
  [.operate (exampleEnv "s1") (.createSession (exampleSession "g0")),
    .operate (exampleEnv "u1") (.trustHostKey "s1" "web.example" 22 "ssh-ed25519" "SHA256:web"),
    .operate (exampleEnv "u2") (.updateSession "s1" (confirmedSession host)),
    .connect "s1"]

/-- The state after such a run. -/
def editedState (host : String) : TrustState :=
  (editedRun host).foldl TrustState.next (hostKeys "t" "g0").init

theorem run_hostKeys (now id : String) (events : List TrustEvent) :
    (hostKeys now id).run events = some (events.foldl TrustState.next (hostKeys now id).init) := by
  have key : ∀ s, (hostKeys now id).runFrom s events = some (events.foldl TrustState.next s) := by
    induction events with
    | nil => exact fun _ => rfl
    | cons event events ih => exact fun s => ih (s.next event)
  exact key _

/-- The attempt of such a run. -/
def editedAttempt (host : String) : Attempt :=
  { session := { SessionConfig.new "t" "s1" (confirmedSession host) with updatedAt := "t" }
    trusted := knownHost (editedState host).data host 22 }

/-- The edit is one at the address: the key that was confirmed is accepted there. -/
theorem hostKey_bound_editedRun :
    (editedState "web.example").confirmed "web.example" 22 = some "SHA256:web" := by
  have hbinds : (hostKeys "t" "g0").Meets TrustState.Binds (editedRun "web.example") := by
    decide +kernel
  have hattempt : editedAttempt "web.example" ∈ (editedState "web.example").attempts := by
    decide +kernel
  exact (hostKey_bound rfl hbinds (run_hostKeys _ _ _) hattempt ⟨"ssh-ed25519", "SHA256:web"⟩).1
    (by decide +kernel)

/-- An edit hands the stored fingerprint on, and a new session has none, as the form does it. -/
def TrustState.CarriesOver (s : TrustState) : TrustEvent → Prop
  | .operate _ (.createSession input) => input.ssh.hostKeyFingerprint = none
  | .operate _ (.updateSession sessionId input) =>
    ∀ session ∈ findSession s.data sessionId,
      input.ssh.hostKeyFingerprint = session.ssh.hostKeyFingerprint
  | _ => True

instance (s : TrustState) (event : TrustEvent) : Decidable (s.CarriesOver event) := by
  induction event using TrustEvent.casesOn with
  | operate env op =>
    induction op using VaultOp.casesOn <;> dsimp only [TrustState.CarriesOver] <;> infer_instance
  | _ => dsimp only [TrustState.CarriesOver]; infer_instance

/-- **A key is accepted where it was not confirmed**: the session is moved to another address, for
which nothing was ever confirmed, and the key of the old one is accepted there without a prompt. -/
theorem hostKey_accepted_elsewhere :
    (hostKeys "t" "g0").Meets TrustState.CarriesOver (editedRun "db.example") ∧
      (hostKeys "t" "g0").run (editedRun "db.example") = some (editedState "db.example") ∧
      editedAttempt "db.example" ∈ (editedState "db.example").attempts ∧
      (editedState "db.example").confirmed "db.example" 22 = none ∧
      ((editedAttempt "db.example").client.checkServerKey ⟨"ssh-ed25519", "SHA256:web"⟩).1 = true :=
  ⟨by decide +kernel, run_hostKeys _ _ _, by decide +kernel, by decide +kernel,
    by decide +kernel⟩

end Vault
end HelmSsh
