/-
# The check of a host key

What `connect_inner` (`src-tauri/src/remote/runtime_connection.rs`) makes of the key that a server
shows.  The expected fingerprint is that of the known host of the address, and where there is none
the one that the session carries (`RemoteClient.new`).  `RemoteClient::check_server_key`
(`src-tauri/src/remote.rs`) accepts a key of that fingerprint and no other; `map_connect_error`
(`src-tauri/src/remote/event_emitters.rs`) turns a failed handshake into the error from which the
frontend asks for a confirmation.

`connect_stream` of the SSH library runs the check: what it answers when the check refuses is the
parameter `refused`.  The timeout around both attempts is left out: it ends a handshake that has no
answer.

* `checkServerKey_iff` — a key is accepted if and only if its fingerprint is the expected one.
* `handshake_prompts` — a key that is not accepted ends the handshake with a prompt for it.
-/

import HelmSsh.Remote.Forwards
import HelmSsh.Vault.Connect

namespace HelmSsh
namespace Remote

open Config

/-! ### The client -/

/-- What a `PublicKey` shows: its algorithm and the text of its SHA-256 fingerprint. -/
structure PublicKey where
  algorithm : String
  fingerprint : String
  deriving DecidableEq

/-- What `RemoteClient` knows of the host key: whom to ask about, and the entry that is trusted. -/
structure RemoteClient where
  verification : HostKeyVerification
  trusted : Option KnownHostEntry
  deriving DecidableEq

/-- The entry that `connect_inner` trusts: the known host, or else the fingerprint of the session.
-/
def trustedEntry (session : SessionConfig) (trusted : Option KnownHostEntry) :
    Option KnownHostEntry :=
  trusted.or <| session.ssh.hostKeyFingerprint.map fun fingerprint =>
    { host := session.host, port := session.port, algorithm := "", fingerprint := fingerprint,
      trustedAt := "" }

namespace RemoteClient

/-- The `RemoteClient` that `connect_inner` makes. -/
def new (session : SessionConfig) (trusted : Option KnownHostEntry) : RemoteClient where
  verification :=
    { sessionId := session.id, host := session.host, port := session.port.toNat, algorithm := "",
      fingerprint := ""
      expectedFingerprint :=
        (trusted.map KnownHostEntry.fingerprint).or session.ssh.hostKeyFingerprint }
  trusted := trustedEntry session trusted

/-- The fingerprint that is expected. -/
def expected (client : RemoteClient) : Option String :=
  client.trusted.map KnownHostEntry.fingerprint

/-- What `check_server_key` notes of a key. -/
def observe (client : RemoteClient) (key : PublicKey) : HostKeyVerification :=
  { client.verification with
    algorithm := key.algorithm
    fingerprint := key.fingerprint
    expectedFingerprint := client.trusted.map KnownHostEntry.fingerprint }

/-- `check_server_key`, with what it notes. -/
def checkServerKey (client : RemoteClient) (key : PublicKey) : Bool × HostKeyVerification :=
  (client.trusted.any fun entry => entry.fingerprint = key.fingerprint, client.observe key)

/-- **A key is accepted if and only if its fingerprint is the expected one.** -/
theorem checkServerKey_iff {client : RemoteClient} {key : PublicKey} :
    (client.checkServerKey key).1 = true ↔ client.expected = some key.fingerprint := by
  rw [checkServerKey, expected]
  cases client.trusted with
  | none => exact ⟨nofun, nofun⟩
  | some entry =>
    rw [Option.any_some, decide_eq_true_eq, Option.map_some, Option.some_inj]

/-- What is expected: the known host's fingerprint, or else that of the session. -/
theorem expected_new (session : SessionConfig) (trusted : Option KnownHostEntry) :
    (new session trusted).expected =
      (trusted.map KnownHostEntry.fingerprint).or session.ssh.hostKeyFingerprint := by
  cases trusted with
  | some entry => rfl
  | none => cases hfingerprint : session.ssh.hostKeyFingerprint <;> simp [new, expected,
      trustedEntry, hfingerprint]

end RemoteClient

/-! ### The handshake -/

/-- The kinds of `std::io::Error` that `is_transient_connect_error` names, and the others. -/
inductive ErrorKind where
  | connectionReset
  | connectionAborted
  | brokenPipe
  | unexpectedEof
  | timedOut
  | other
  deriving DecidableEq

/-- The errors of the SSH library that the source names, and the others with their text. -/
inductive RusshError where
  | hup
  | disconnect
  | connectionTimeout
  | keepaliveTimeout
  | unknownKey
  | ioError (kind : ErrorKind)
  | other (text : String)
  deriving DecidableEq

/-- `is_transient_connect_error`. -/
def isTransientConnectError : RusshError → Bool
  | .hup | .disconnect | .connectionTimeout | .keepaliveTimeout => true
  | .ioError kind => kind ≠ .other
  | _ => false

/-- `map_connect_error`, with the detail that it finds for an error of another cause. -/
def mapConnectError (observed : Option HostKeyVerification) (detail : String) : AppError :=
  match observed with
  | some verification =>
    match verification.expectedFingerprint with
    | none => .hostKeyUntrusted verification
    | some expected =>
      if expected ≠ verification.fingerprint then .hostKeyChanged verification
      else .remote ("SSH 握手失败（协议协商或密钥交换阶段）：" ++ detail)
  | none => .remote ("SSH 握手失败（协议协商或密钥交换阶段）：" ++ detail)

/-- What a server does in one attempt: the connection to it may fail, the exchange may fail before
its key is seen or after, and `detail` is the text for such a failure. -/
structure Peer where
  connectTcp : Option AppError
  beforeKey : Option RusshError
  key : PublicKey
  afterKey : Option RusshError
  detail : String

/-- The server shows its key. -/
def Peer.Shows (peer : Peer) (key : PublicKey) : Prop :=
  peer.connectTcp = none ∧ peer.beforeKey = none ∧ peer.key = key

/-- `connect_stream`, with what was noted of the key.  A refused key is answered with `refused`. -/
def connectStream (refused : RusshError) (client : RemoteClient) (peer : Peer) :
    Except RusshError Unit × Option HostKeyVerification :=
  match peer.beforeKey with
  | some error => (.error error, none)
  | none =>
    let (accepted, observed) := client.checkServerKey peer.key
    if accepted then (peer.afterKey.elim (.ok ()) .error, some observed)
    else (.error refused, some observed)

/-- One attempt, with what follows on a transient failure. -/
def attempt (refused : RusshError) (client : RemoteClient) (peer : Peer)
    (transient : Option (AppResult Unit)) : AppResult Unit :=
  match peer.connectTcp with
  | some error => .error error
  | none =>
    match connectStream refused client peer with
    | (.ok (), _) => .ok ()
    | (.error error, observed) =>
      match transient.filter fun _ => isTransientConnectError error with
      | some next => next
      | none => .error (mapConnectError observed peer.detail)

/-- The loop over the two attempts of `connect_inner`, each with the server it meets. -/
def handshake (refused : RusshError) (client : RemoteClient) (first second : Peer) :
    AppResult Unit :=
  attempt refused client first (some (attempt refused client second none))

/-- The verification that an error carries to the frontend. -/
def hostKeyPayload : AppError → Option HostKeyVerification
  | .hostKeyUntrusted verification | .hostKeyChanged verification => some verification
  | _ => none

/-- The `HOST_KEY_VERIFY` that a failed handshake emits. -/
def hostKeyEvents (origin : ConnectionOrigin) (error : AppError) : List HostKeyVerification :=
  match origin with
  | .desktop => (hostKeyPayload error).toList
  | .automation => []

/-- The connection attempt fails and asks for a confirmation of the key. -/
def Prompts (client : RemoteClient) (key : PublicKey) (result : AppResult Unit) : Prop :=
  ∃ error, result = .error error ∧ hostKeyPayload error = some (client.observe key) ∧
    hostKeyEvents .desktop error = [client.observe key]

/-- A key that is not the expected one is asked about. -/
theorem hostKeyPayload_mapConnectError {client : RemoteClient} {key : PublicKey}
    (h : client.expected ≠ some key.fingerprint) (detail : String) :
    hostKeyPayload (mapConnectError (some (client.observe key)) detail) =
      some (client.observe key) := by
  rw [mapConnectError]
  have hexpected : (client.observe key).expectedFingerprint = client.expected := rfl
  rw [hexpected]
  cases hcase : client.expected with
  | none => rfl
  | some fingerprint =>
    have hne : fingerprint ≠ (client.observe key).fingerprint := by
      rintro rfl
      exact h hcase
    dsimp only
    rw [if_pos hne]
    rfl

/-- **A key that is not accepted is asked about**: an attempt in which the server shows another key
than the expected one fails with a prompt for it, when the answer to a refused key is not one that
is tried again. -/
theorem attempt_prompts {refused : RusshError} (hrefused : isTransientConnectError refused = false)
    {client : RemoteClient} {key : PublicKey} (h : client.expected ≠ some key.fingerprint)
    {peer : Peer} (hshows : peer.Shows key) (transient : Option (AppResult Unit)) :
    Prompts client key (attempt refused client peer transient) := by
  obtain ⟨htcp, hbefore, rfl⟩ := hshows
  have hrejected : (client.checkServerKey peer.key).1 = false :=
    Bool.eq_false_iff.mpr fun haccepted => h (RemoteClient.checkServerKey_iff.mp haccepted)
  have hstream : connectStream refused client peer =
      (.error refused, some (client.observe peer.key)) := by
    rw [connectStream, hbefore]
    dsimp only
    rw [hrejected]
    rfl
  have hnone : transient.filter (fun _ => isTransientConnectError refused) = none := by
    rw [hrefused]
    cases transient <;> rfl
  have hpayload := hostKeyPayload_mapConnectError h peer.detail
  refine ⟨mapConnectError (some (client.observe peer.key)) peer.detail, ?_, hpayload, ?_⟩
  · rw [attempt, htcp]
    dsimp only
    rw [hstream]
    dsimp only
    rw [hnone]
  · rw [hostKeyEvents, hpayload]
    rfl

/-- **A refused key ends the handshake with a prompt**, in the first attempt or, when that one
failed for a transient reason, in the second. -/
theorem handshake_prompts {refused : RusshError}
    (hrefused : isTransientConnectError refused = false)
    {client : RemoteClient} {key : PublicKey} (h : client.expected ≠ some key.fingerprint)
    (first second : Peer) :
    (first.Shows key → Prompts client key (handshake refused client first second)) ∧
      (second.Shows key → first.connectTcp = none →
        (∃ error, (connectStream refused client first).1 = .error error ∧
          isTransientConnectError error = true) →
        Prompts client key (handshake refused client first second)) := by
  refine ⟨fun hshows => attempt_prompts hrefused h hshows _, fun hshows htcp htransient => ?_⟩
  obtain ⟨error, hstream, htransient⟩ := htransient
  have hretry : handshake refused client first second = attempt refused client second none := by
    rw [handshake, attempt, htcp]
    dsimp only
    rw [← Prod.mk.eta (p := connectStream refused client first), hstream]
    dsimp only
    rw [Option.filter_some, if_pos htransient]
  rw [hretry]
  exact attempt_prompts hrefused h hshows none

end Remote
end HelmSsh
