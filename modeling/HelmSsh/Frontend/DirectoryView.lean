/-
# The directory shown for a session

`ensureSessionSftp`, `changePath`, `refreshSessionFiles`, `refreshFiles`,
`refreshFilesForTransfer` and `searchRemoteFile` of `src/app/useSftpFiles.ts`, on one session:
the path shown, the path of the listing shown and the listing, while connections come and go
and requests complete in any order.  `updateTerminalCwd` and `applyPaths`, which also write
`currentPath`, are left out.  `requestSeq` is a natural number, where the source's number stops
counting at `2 ^ 53`.

A listing remembers what it was asked for (`Listing`).  The model counts the navigations of the
user and keeps the target of the latest one, which the code does not.

* `directory_view` — as long as no search answers after a later navigation, no failed
  navigation is undone under a listing that a search brought, and no SFTP connection opened
  before a navigation falls back to another directory (`Orderly`), the listing shown is that of
  the path shown, and nothing issued before the latest navigation leads away from its target.
* `undone_under_listing` — where it does not.
-/

import HelmSsh.Machine
import HelmSsh.Frontend.RemotePath

namespace HelmSsh
namespace Frontend
namespace DirectoryView

open RemotePath

/-- A directory listing, with the SFTP connection and the directory it was asked for. -/
structure Listing (ε : Type*) where
  sftpId : ℕ
  path : List Char
  entries : ε
  deriving DecidableEq

/-- `RemoteSession`, as far as these functions read and write it.  The name of an SFTP
connection is that of its SSH connection, which has one. -/
structure RemoteSession (ε : Type*) where
  username : List Char
  /-- `state === "connected"`. -/
  connected : Bool
  connectionId : Option ℕ
  sftpId : Option ℕ
  currentPath : List Char
  loginPath : Option (List Char)
  filesPath : Option (List Char)
  files : Option (Listing ε)
  deriving DecidableEq

/-- `defaultRemoteHomePath`. -/
def defaultRemoteHomePath (username : List Char) : List Char :=
  let name := trim username
  if name = [] ∨ name = "root".toList then "/root".toList else "/home/".toList ++ name

variable {ε : Type*}

/-- `remoteSessionPath`. -/
def remoteSessionPath (session : RemoteSession ε) : List Char :=
  let path := trim session.currentPath
  if path ≠ [] then normalizePath path else defaultRemoteHomePath session.username

/-- The directory that `openSftpWithFiles` falls back to. -/
def homePath (session : RemoteSession ε) : List Char :=
  match session.loginPath with
  | some loginPath =>
    if loginPath ≠ [] then normalizePath loginPath else defaultRemoteHomePath session.username
  | none => defaultRemoteHomePath session.username

/-- What a function is waiting for. -/
inductive Request
  /-- `refreshFiles`, with the path that `changePath` goes back to. -/
  | refresh (sftpId : ℕ) (path : List Char) (requestSeq : ℕ) (previousPath : Option (List Char))
  /-- `searchRemoteFile`, for the path of the file. -/
  | search (sftpId : ℕ) (aborted : Bool)
  /-- `searchRemoteFile`, for the listing of the directory of the file. -/
  | searchListing (sftpId : ℕ) (directory : List Char) (aborted : Bool)
  /-- `openSftpWithFiles`, for the SFTP connection. -/
  | opening (connectionId : ℕ) (initialPath homePath : List Char)
  /-- `openSftpWithFiles`, for the listing of the initial path. -/
  | initialListing (connectionId : ℕ) (initialPath homePath : List Char)
  /-- `openSftpWithFiles`, for the listing of the home directory. -/
  | homeListing (connectionId : ℕ) (initialPath homePath : List Char)
  | done
  deriving DecidableEq

/-- A request, with the number of navigations made before it. -/
structure Pending where
  request : Request
  stamp : ℕ
  deriving DecidableEq

/-- The session and what is under way for it. -/
structure View (ε : Type*) where
  session : RemoteSession ε
  /-- The entry of the session in `refreshRequestSeqRef`. -/
  requestSeq : ℕ
  requests : List Pending
  /-- The SSH connections made so far. -/
  connections : ℕ
  /-- The navigations of the user so far. -/
  navigations : ℕ
  /-- The target of the latest navigation on the connection. -/
  target : Option (List Char)
  deriving DecidableEq

/-- What happens to the session. -/
inductive Event (ε : Type*)
  | connected (fallbackInitialPath : List Char) (loginPath : Option (List Char))
  | disconnected
  | changePath (path : List Char)
  | refreshSessionFiles
  | refreshFilesForTransfer (sftpId : ℕ) (remotePath : List Char)
  /-- The refresh after the event that a directory has changed. -/
  | refreshChanged (sftpId : ℕ)
  | invalidateSftpDirectory (sftpId : ℕ) (directory : List Char)
  | ensureSessionSftp (connectionId : Option ℕ)
  | searchRemoteFile
  /-- The signal of a search is aborted. -/
  | abort (index : ℕ)
  /-- `remoteApi.openSftp` answers. -/
  | opened (index : ℕ) (ok : Bool)
  /-- `remoteApi.searchFile` answers. -/
  | found (index : ℕ) (targetPath : Option (List Char))
  /-- A listing completes, or fails. -/
  | listed (index : ℕ) (entries : Option ε)
  deriving DecidableEq

/-- A request is made. -/
def View.ask (v : View ε) (request : Request) : View ε :=
  { v with requests := v.requests ++ [⟨request, v.navigations⟩] }

/-- A request goes on as another one, or is done. -/
def View.become (v : View ε) (index : ℕ) (pending : Pending) (request : Request) : View ε :=
  { v with requests := v.requests.set index { pending with request := request } }

/-- `refreshFiles`, up to its listing. -/
def View.refreshFiles (v : View ε) (sftpId : ℕ) (path : List Char)
    (previousPath : Option (List Char)) : View ε :=
  let v := { v with requestSeq := v.requestSeq + 1 }
  v.ask (.refresh sftpId (normalizePath path) v.requestSeq previousPath)

/-- `isCurrentFileRequest`. -/
def View.isCurrentFileRequest (v : View ε) (sftpId : ℕ) (path : List Char) (requestSeq : ℕ) :
    Bool :=
  v.requestSeq = requestSeq && v.session.sftpId = some sftpId &&
    normalizePath v.session.currentPath = path

/-- `changePath`, up to its listing. -/
def View.changePath (v : View ε) (path : List Char) : View ε :=
  let previousPath := normalizePath v.session.currentPath
  let nextPath := normalizePath path
  let v := { v with
    session := { v.session with currentPath := nextPath, filesPath := none }
    navigations := v.navigations + 1
    target := some nextPath }
  match v.session.sftpId with
  | none => v
  | some sftpId => v.refreshFiles sftpId nextPath (some previousPath)

/-- A request of `ensureSessionSftp` for the connection is under way. -/
def Request.opens (connectionId : ℕ) : Request → Bool
  | .opening id _ _ | .initialListing id _ _ | .homeListing id _ _ => id = connectionId
  | _ => false

/-- `ensureSessionSftp`, up to the SFTP connection. -/
def View.ensureSessionSftp (v : View ε) (connectionId : Option ℕ) : View ε :=
  match v.session.connected, v.session.connectionId, v.session.sftpId with
  | true, some expectedConnectionId, none =>
    if connectionId ≠ none ∧ connectionId ≠ some expectedConnectionId then v
    else if v.requests.any (·.request.opens expectedConnectionId) then v
    else v.ask (.opening expectedConnectionId (remoteSessionPath v.session) (homePath v.session))
  | _, _, _ => v

/-- The end of `ensureSessionSftp`: the result of `openSftpWithFiles` is applied. -/
def View.applySftp (v : View ε) (connectionId : ℕ) (initialPath resultPath : List Char)
    (filesPath : Option (List Char)) (files : Option (Listing ε)) : View ε :=
  if v.session.connected = false ∨ v.session.connectionId ≠ some connectionId ∨
      v.session.sftpId ≠ none then v
  else
    let requestedPath := normalizePath initialPath
    let latestPath := normalizePath (remoteSessionPath v.session)
    let targetPath := if latestPath = requestedPath then normalizePath resultPath else latestPath
    if filesPath = some targetPath then
      { v with session := { v.session with
          currentPath := targetPath, sftpId := some connectionId
          filesPath := some targetPath, files := files } }
    else
      let v := { v with session := { v.session with
          currentPath := targetPath, sftpId := some connectionId, filesPath := none } }
      if latestPath = requestedPath then v else v.refreshFiles connectionId targetPath none

/-- The listing that `refreshFiles` waits for completes, or fails. -/
def View.refreshed (v : View ε) (sftpId : ℕ) (path : List Char) (requestSeq : ℕ)
    (previousPath : Option (List Char)) (entries : Option ε) : View ε :=
  if v.isCurrentFileRequest sftpId path requestSeq then
    match entries, previousPath with
    | some entries, _ =>
      { v with session := { v.session with
          filesPath := some path, files := some ⟨sftpId, path, entries⟩ } }
    | none, some previousPath =>
      { v with session := { v.session with currentPath := previousPath } }
    | none, none => v
  else v

/-- The listing that `searchRemoteFile` waits for completes, or fails. -/
def View.searched (v : View ε) (sftpId : ℕ) (directory : List Char) (aborted : Bool)
    (entries : Option ε) : View ε :=
  if aborted ∨ v.session.sftpId ≠ some sftpId then v
  else
    match entries with
    | none => v
    | some entries =>
      { v with session := { v.session with
          currentPath := directory, filesPath := some directory
          files := some ⟨sftpId, directory, entries⟩ } }

/-- A listing completes, or fails. -/
def View.listed (v : View ε) (index : ℕ) (pending : Pending) (entries : Option ε) :
    Option (View ε) :=
  let finished := v.become index pending .done
  match pending.request with
  | .refresh sftpId path requestSeq previousPath =>
    some (finished.refreshed sftpId path requestSeq previousPath entries)
  | .searchListing sftpId directory aborted =>
    some (finished.searched sftpId directory aborted entries)
  | .initialListing connectionId initialPath homePath =>
    match entries with
    | some entries =>
      some (finished.applySftp connectionId initialPath initialPath
        (some (normalizePath initialPath))
        (some ⟨connectionId, normalizePath initialPath, entries⟩))
    | none =>
      if normalizePath initialPath = homePath then
        some (finished.applySftp connectionId initialPath initialPath none none)
      else some (v.become index pending (.homeListing connectionId initialPath homePath))
  | .homeListing connectionId initialPath homePath =>
    match entries with
    | some entries =>
      some (finished.applySftp connectionId initialPath homePath (some homePath)
        (some ⟨connectionId, normalizePath homePath, entries⟩))
    | none => some (finished.applySftp connectionId initialPath initialPath none none)
  | _ => none

/-- `remoteApi.openSftp` answers. -/
def View.opened (v : View ε) (index : ℕ) (pending : Pending) (ok : Bool) : Option (View ε) :=
  match pending.request with
  | .opening connectionId initialPath homePath =>
    if ok then some (v.become index pending (.initialListing connectionId initialPath homePath))
    else some (v.become index pending .done)
  | _ => none

/-- `remoteApi.searchFile` answers. -/
def View.found (v : View ε) (index : ℕ) (pending : Pending) (targetPath : Option (List Char)) :
    Option (View ε) :=
  match pending.request with
  | .search sftpId aborted =>
    match targetPath with
    | none => some (v.become index pending .done)
    | some targetPath =>
      if aborted ∨ v.session.sftpId ≠ some sftpId ∨ targetPath = [] then
        some (v.become index pending .done)
      else some (v.become index pending (.searchListing sftpId (getParentPath targetPath) false))
  | _ => none

/-- The signal of a search is aborted. -/
def View.abort (v : View ε) (index : ℕ) (pending : Pending) : Option (View ε) :=
  match pending.request with
  | .search sftpId _ => some (v.become index pending (.search sftpId true))
  | .searchListing sftpId directory _ =>
    some (v.become index pending (.searchListing sftpId directory true))
  | _ => none

/-- One step of the session. -/
def step (v : View ε) : Event ε → Option (View ε)
  | .connected fallbackInitialPath loginPath =>
    some { v with
      session := { v.session with
        connected := true, connectionId := some v.connections, sftpId := none
        currentPath := fallbackInitialPath, loginPath := loginPath
        filesPath := none, files := none }
      connections := v.connections + 1
      target := none }
  | .disconnected =>
    some { v with session := { v.session with
      connected := false, connectionId := none, sftpId := none, loginPath := none
      filesPath := none, files := none } }
  | .changePath path => some (v.changePath path)
  | .refreshSessionFiles =>
    match v.session.sftpId with
    | none => some (v.ensureSessionSftp v.session.connectionId)
    | some sftpId => some (v.refreshFiles sftpId v.session.currentPath none)
  | .refreshFilesForTransfer sftpId remotePath =>
    let directory := getParentPath remotePath
    if v.session.sftpId = some sftpId ∧ normalizePath (remoteSessionPath v.session) = directory then
      some (v.refreshFiles sftpId directory none)
    else some v
  | .refreshChanged sftpId =>
    if v.session.sftpId = some sftpId then
      some (v.refreshFiles sftpId (remoteSessionPath v.session) none)
    else some v
  | .invalidateSftpDirectory sftpId directory =>
    if v.session.sftpId = some sftpId ∧
        v.session.filesPath.map normalizePath = some (normalizePath directory) then
      some { v with session := { v.session with filesPath := none } }
    else some v
  | .ensureSessionSftp connectionId => some (v.ensureSessionSftp connectionId)
  | .searchRemoteFile =>
    match v.session.sftpId with
    | none => some v
    | some sftpId => some (v.ask (.search sftpId false))
  | .abort index => v.requests[index]?.bind (v.abort index)
  | .opened index ok => v.requests[index]?.bind (v.opened index · ok)
  | .found index targetPath => v.requests[index]?.bind (v.found index · targetPath)
  | .listed index entries => v.requests[index]?.bind (v.listed index · entries)

/-- A session that was never connected. -/
def init (username currentPath : List Char) : View ε where
  session :=
    { username := username, connected := false, connectionId := none, sftpId := none
      currentPath := currentPath, loginPath := none, filesPath := none, files := none }
  requestSeq := 0
  requests := []
  connections := 0
  navigations := 0
  target := none

/-- The session of a user, with the path it starts at. -/
def machine (ε : Type*) (username currentPath : List Char) : Machine (View ε) (Event ε) where
  init := init username currentPath
  step := step

/-! ### What is to hold -/

/-- The listing shown is that of the path shown, over the SFTP connection of the session. -/
def Consistent (v : View ε) : Prop :=
  ∀ path sftpId, v.session.filesPath = some path → v.session.sftpId = some sftpId →
    path = normalizePath v.session.currentPath ∧
      ∃ entries, v.session.files = some ⟨sftpId, path, entries⟩

/-- The request that an answer belongs to. -/
def View.answered (v : View ε) : Event ε → Option Pending
  | .opened index _ | .found index _ | .listed index _ => v.requests[index]?
  | _ => none

/-- The latest navigation stands and was made after a request. -/
def View.isLate (v : View ε) (pending : Pending) : Bool :=
  pending.stamp < v.navigations && v.target = some v.session.currentPath

/-- The answer to a request made before the latest navigation leaves its target in place. -/
def Loyal (v : View ε) (e : Event ε) (v' : View ε) : Prop :=
  ∀ pending, v.answered e = some pending → v.isLate pending = true →
    v'.session.currentPath = v.session.currentPath

/-- The answers that do no harm: a search that a navigation has overtaken is aborted, or brings
the directory navigated to; a navigation that fails is undone before a search has listed its
directory; and an SFTP connection that was asked for before a navigation finds a path without
blanks around it, and does not fall back to the home directory for it. -/
def orderly (v : View ε) : Event ε → Bool
  | .listed index entries =>
    match v.requests[index]? with
    | some ⟨.searchListing sftpId directory aborted, stamp⟩ =>
      aborted || v.session.sftpId ≠ some sftpId || entries.isNone ||
        !v.isLate ⟨.searchListing sftpId directory aborted, stamp⟩ ||
        directory = v.session.currentPath
    | some ⟨.refresh sftpId path requestSeq (some previousPath), _⟩ =>
      entries.isSome || !v.isCurrentFileRequest sftpId path requestSeq ||
        v.session.filesPath = none || previousPath = path
    | some ⟨.initialListing connectionId initialPath homePath, stamp⟩ =>
      !v.isLate ⟨.initialListing connectionId initialPath homePath, stamp⟩ ||
        trim v.session.currentPath = v.session.currentPath
    | some ⟨.homeListing connectionId initialPath homePath, stamp⟩ =>
      !v.isLate ⟨.homeListing connectionId initialPath homePath, stamp⟩ ||
        (trim v.session.currentPath = v.session.currentPath &&
          (entries.isNone || v.session.currentPath ≠ normalizePath initialPath))
    | _ => true
  | _ => true

/-! ### The invariant -/

/-- A refresh under way.  It belongs to a connection on which SFTP is open while the connection
lasts; when its number is the latest although the user navigated after it, the connection is
gone. -/
structure RefreshOk (v : View ε) (stamp sftpId : ℕ) (path : List Char) (requestSeq : ℕ)
    (previousPath : Option (List Char)) : Prop where
  path : normalizePath path = path
  known : sftpId < v.connections
  seq : requestSeq ≤ v.requestSeq
  opened : v.session.connectionId = some sftpId → v.session.sftpId = some sftpId
  overtaken : requestSeq = v.requestSeq → stamp < v.navigations → previousPath ≠ none →
    v.session.connectionId ≠ some sftpId

/-- A request under way. -/
structure RequestOk (v : View ε) (pending : Pending) : Prop where
  stamp : pending.stamp ≤ v.navigations
  refresh : ∀ sftpId path requestSeq previousPath,
    pending.request = .refresh sftpId path requestSeq previousPath →
      RefreshOk v pending.stamp sftpId path requestSeq previousPath
  search : ∀ sftpId directory aborted,
    pending.request = .searchListing sftpId directory aborted →
      normalizePath directory = directory

/-- The state of the session and its requests. -/
structure Inv (v : View ε) : Prop where
  shown : ∀ path, v.session.filesPath = some path →
    path = normalizePath v.session.currentPath ∧
      ∃ sftpId entries, v.session.sftpId = some sftpId ∧
        v.session.files = some ⟨sftpId, path, entries⟩
  sftp : ∀ sftpId, v.session.sftpId = some sftpId → v.session.connectionId = some sftpId
  fresh : ∀ id, v.session.connectionId = some id → id < v.connections
  target : ∀ path, v.target = some path → normalizePath path = path
  requests : ∀ pending ∈ v.requests, RequestOk v pending

variable {v v' : View ε} {sftpId index : ℕ} {path : List Char} {pending : Pending}

theorem Inv.consistent (h : Inv v) : Consistent v := by
  intro path sftpId hpath hsftp
  obtain ⟨heq, id, entries, hid, hfiles⟩ := h.shown path hpath
  obtain rfl := Option.some_inj.mp (hsftp.symm.trans hid)
  exact ⟨heq, entries, hfiles⟩

theorem RequestOk.imp (h : RequestOk v pending) (hnav : v.navigations ≤ v'.navigations)
    (hrefresh : ∀ sftpId path requestSeq previousPath,
      RefreshOk v pending.stamp sftpId path requestSeq previousPath →
        RefreshOk v' pending.stamp sftpId path requestSeq previousPath) : RequestOk v' pending where
  stamp := Nat.le_trans h.stamp hnav
  refresh sftpId path requestSeq previousPath heq :=
    hrefresh _ _ _ _ (h.refresh sftpId path requestSeq previousPath heq)
  search := h.search

/-- A request that is neither a refresh nor a listing of a search. -/
theorem RequestOk.other {request : Request} {stamp : ℕ} (hstamp : stamp ≤ v.navigations)
    (hrefresh : ∀ sftpId path requestSeq previousPath,
      request ≠ .refresh sftpId path requestSeq previousPath)
    (hsearch : ∀ sftpId directory aborted, request ≠ .searchListing sftpId directory aborted) :
    RequestOk v ⟨request, stamp⟩ where
  stamp := hstamp
  refresh _ _ _ _ heq := absurd heq (hrefresh _ _ _ _)
  search _ _ _ heq := absurd heq (hsearch _ _ _)

theorem Inv.ask (h : Inv v) {request : Request} (hr : RequestOk v ⟨request, v.navigations⟩) :
    Inv (v.ask request) where
  shown := h.shown
  sftp := h.sftp
  fresh := h.fresh
  target := h.target
  requests p hp := by
    have hok : RequestOk v p := by
      rcases List.mem_append.mp hp with hp | hp
      · exact h.requests p hp
      · exact List.mem_singleton.mp hp ▸ hr
    exact hok.imp (Nat.le_refl _) fun _ _ _ _ hr => ⟨hr.path, hr.known, hr.seq, hr.opened,
      hr.overtaken⟩

theorem Inv.become (h : Inv v) {request : Request}
    (hr : RequestOk v { pending with request := request }) :
    Inv (v.become index pending request) where
  shown := h.shown
  sftp := h.sftp
  fresh := h.fresh
  target := h.target
  requests p hp := by
    have hok : RequestOk v p := by
      rcases List.mem_or_eq_of_mem_set hp with hp | rfl
      · exact h.requests p hp
      · exact hr
    exact hok.imp (Nat.le_refl _) fun _ _ _ _ hr => ⟨hr.path, hr.known, hr.seq, hr.opened,
      hr.overtaken⟩

theorem Inv.finish (h : Inv v) (hp : v.requests[index]? = some pending) :
    Inv (v.become index pending .done) :=
  h.become (.other (h.requests pending (List.mem_of_getElem? hp)).stamp (by simp) (by simp))

/-- Another path or listing is shown, on the same connections. -/
theorem Inv.show (h : Inv v) {session : RemoteSession ε}
    (hconnection : session.connectionId = v.session.connectionId)
    (hsftp : session.sftpId = v.session.sftpId)
    (hshown : ∀ path, session.filesPath = some path →
      path = normalizePath session.currentPath ∧
        ∃ sftpId entries, session.sftpId = some sftpId ∧
          session.files = some ⟨sftpId, path, entries⟩) :
    Inv { v with session := session } where
  shown := hshown
  sftp id hid := hconnection.trans (h.sftp id (hsftp ▸ hid))
  fresh id hid := h.fresh id (hconnection ▸ hid)
  target := h.target
  requests p hp := (h.requests p hp).imp (Nat.le_refl _) fun _ _ _ _ hr =>
    ⟨hr.path, hr.known, hr.seq, fun hid => hsftp.trans (hr.opened (hconnection ▸ hid)),
      fun hseq hlt hback hid => hr.overtaken hseq hlt hback (hconnection ▸ hid)⟩

theorem RequestOk.latest (hsftp : v.session.sftpId = some sftpId) (hknown : sftpId < v.connections)
    (path : List Char) (previousPath : Option (List Char)) :
    RequestOk v ⟨.refresh sftpId (normalizePath path) v.requestSeq previousPath,
      v.navigations⟩ where
  stamp := Nat.le_refl _
  refresh _ _ _ _ heq := by
    cases heq
    exact ⟨normalizePath_idem path, hknown, Nat.le_refl _, fun _ => hsftp,
      fun _ hlt => absurd hlt (Nat.lt_irrefl _)⟩
  search _ _ _ heq := by cases heq

theorem Inv.askRefresh (h : Inv v) (hsftp : v.session.sftpId = some sftpId) (path : List Char)
    (previousPath : Option (List Char)) :
    Inv (v.ask (.refresh sftpId (normalizePath path) v.requestSeq previousPath)) :=
  h.ask (.latest hsftp (h.fresh _ (h.sftp _ hsftp)) path previousPath)

/-- A refresh is asked for, on the SFTP connection of the session. -/
theorem Inv.refreshFiles (h : Inv v) (hsftp : v.session.sftpId = some sftpId) (path : List Char)
    (previousPath : Option (List Char)) : Inv (v.refreshFiles sftpId path previousPath) := by
  have hbump : Inv { v with requestSeq := v.requestSeq + 1 } := by
    refine ⟨h.shown, h.sftp, h.fresh, h.target, fun p hp => ?_⟩
    refine (h.requests p hp).imp (Nat.le_refl _) fun _ _ _ _ hr => ⟨hr.path, hr.known,
      Nat.le_succ_of_le hr.seq, hr.opened, fun heq => ?_⟩
    exact absurd (heq ▸ hr.seq) (Nat.not_succ_le_self _)
  exact hbump.askRefresh hsftp path previousPath

/-- **A navigation overtakes the refreshes before it**, when it asks for one, and otherwise finds
none on its connection. -/
theorem Inv.changePath (h : Inv v) (path : List Char) : Inv (v.changePath path) := by
  have htarget : ∀ target, some (normalizePath path) = some target →
      normalizePath target = target := by
    intro target heq
    obtain rfl := Option.some_inj.mp heq
    exact normalizePath_idem path
  unfold View.changePath
  dsimp only
  cases hsftp : v.session.sftpId with
  | none =>
    refine ⟨fun _ hpath => absurd hpath (Option.some_ne_none _).symm, fun id hid => ?_, h.fresh,
      htarget, fun p hp => ?_⟩
    · cases hid
    · refine (h.requests p hp).imp (Nat.le_succ _) fun _ _ _ _ hr => ⟨hr.path, hr.known, hr.seq,
        fun hid => ?_, fun _ _ _ hid => ?_⟩
      · cases hsftp.symm.trans (hr.opened hid)
      · cases hsftp.symm.trans (hr.opened hid)
  | some sftpId =>
    have hbump : Inv { v with
        session := { v.session with currentPath := normalizePath path, filesPath := none }
        requestSeq := v.requestSeq + 1
        navigations := v.navigations + 1
        target := some (normalizePath path) } := by
      refine ⟨fun _ hpath => absurd hpath (Option.some_ne_none _).symm, h.sftp, h.fresh, htarget,
        fun p hp => ?_⟩
      refine (h.requests p hp).imp (Nat.le_succ _) fun _ _ _ _ hr => ⟨hr.path, hr.known,
        Nat.le_succ_of_le hr.seq, hr.opened, fun heq => ?_⟩
      exact absurd (heq ▸ hr.seq) (Nat.not_succ_le_self _)
    have hask := hbump.askRefresh hsftp (normalizePath path)
      (some (normalizePath v.session.currentPath))
    simp only [View.refreshFiles, View.ask] at hask ⊢
    rw [hsftp] at hask
    exact hask

theorem Inv.ensureSessionSftp (h : Inv v) (connectionId : Option ℕ) :
    Inv (v.ensureSessionSftp connectionId) := by
  unfold View.ensureSessionSftp
  split
  · split_ifs
    · exact h
    · exact h
    · exact h.ask (.other (Nat.le_refl _) (by simp) (by simp))
  · exact h

/-- The result of an SFTP connection is applied: either a listing of the path it leads to, or
none. -/
theorem Inv.applySftp (h : Inv v) {connectionId : ℕ} {initialPath resultPath : List Char}
    {filesPath : Option (List Char)} {files : Option (Listing ε)}
    (hfiles : ∀ path, filesPath = some path → normalizePath path = path →
      ∃ entries, files = some ⟨connectionId, path, entries⟩) :
    Inv (v.applySftp connectionId initialPath resultPath filesPath files) := by
  unfold View.applySftp
  split_ifs with hgone
  · exact h
  · obtain ⟨-, hconnection, hsftp⟩ := not_or.mp hgone |>.imp_right not_or.mp
    rw [not_not] at hconnection hsftp
    dsimp only
    generalize htarget : (if normalizePath (remoteSessionPath v.session) = normalizePath initialPath
      then normalizePath resultPath else normalizePath (remoteSessionPath v.session)) = targetPath
    have hnormal : normalizePath targetPath = targetPath := by
      rw [← htarget]
      split_ifs
      · exact normalizePath_idem _
      · exact normalizePath_idem _
    have hopen : ∀ (filesPath : Option (List Char)) (files : Option (Listing ε)),
        (∀ path, filesPath = some path → path = targetPath ∧
          ∃ entries, files = some ⟨connectionId, path, entries⟩) →
        Inv { v with session := { v.session with
          currentPath := targetPath, sftpId := some connectionId
          filesPath := filesPath, files := files } } := by
      intro filesPath files hshown
      refine ⟨fun path hpath => ?_, fun id hid => ?_, h.fresh, h.target, fun p hp => ?_⟩
      · obtain ⟨rfl, entries, hentries⟩ := hshown path hpath
        exact ⟨hnormal.symm, connectionId, entries, rfl, hentries⟩
      · obtain rfl := Option.some_inj.mp hid
        exact hconnection
      · refine (h.requests p hp).imp (Nat.le_refl _) fun _ _ _ _ hr => ⟨hr.path, hr.known, hr.seq,
          fun hid => ?_, hr.overtaken⟩
        exact hconnection.symm.trans hid
    split_ifs with hmatch hlatest
    · refine hopen _ _ fun path hpath => ?_
      obtain rfl := Option.some_inj.mp hpath
      exact ⟨rfl, hfiles targetPath hmatch hnormal⟩
    · exact hopen none v.session.files fun path hpath => absurd hpath (Option.some_ne_none _).symm
    · have hquiet := hopen none v.session.files
        fun path hpath => absurd hpath (Option.some_ne_none _).symm
      exact hquiet.refreshFiles rfl targetPath none

variable {entries : Option ε}

theorem Inv.refreshed (h : Inv v) {requestSeq : ℕ} {previousPath : Option (List Char)}
    (hback : entries = none → previousPath ≠ none →
      v.isCurrentFileRequest sftpId path requestSeq = true →
        v.session.filesPath = none ∨ previousPath = some path) (hpath : normalizePath path = path) :
    Inv (v.refreshed sftpId path requestSeq previousPath entries) := by
  unfold View.refreshed
  split_ifs with hcurrent
  · have hcur := hcurrent
    simp only [View.isCurrentFileRequest, Bool.and_eq_true, decide_eq_true_iff] at hcur
    obtain ⟨⟨-, hsftp⟩, hshown⟩ := hcur
    split
    · refine h.show rfl rfl fun path' hpath' => ?_
      obtain rfl := Option.some_inj.mp hpath'
      exact ⟨hshown.symm, sftpId, _, hsftp, rfl⟩
    · refine h.show rfl rfl fun path' hpath' => ?_
      rcases hback rfl (Option.some_ne_none _) hcurrent with hnone | hsame
      · cases hnone.symm.trans hpath'
      · obtain rfl := Option.some_inj.mp hsame
        obtain ⟨heq, hlisting⟩ := h.shown path' hpath'
        exact ⟨by rw [heq, hshown, hpath], hlisting⟩
    · exact h
  · exact h

theorem Inv.searched (h : Inv v) {directory : List Char} {aborted : Bool}
    (hdirectory : normalizePath directory = directory) :
    Inv (v.searched sftpId directory aborted entries) := by
  unfold View.searched
  split_ifs with hgone
  · exact h
  · have hsftp := not_not.mp (not_or.mp hgone).2
    cases entries with
    | none => exact h
    | some entries =>
      refine h.show rfl rfl fun path hpath => ?_
      obtain rfl := Option.some_inj.mp hpath
      exact ⟨hdirectory.symm, sftpId, entries, hsftp, rfl⟩

/-- What the condition says about the listing of a search. -/
theorem orderly_search {directory : List Char} {aborted : Bool} {stamp : ℕ}
    (hok : orderly v (.listed index entries) = true)
    (hp : v.requests[index]? = some ⟨.searchListing sftpId directory aborted, stamp⟩) :
    aborted = true ∨ v.session.sftpId ≠ some sftpId ∨ entries = none ∨
      v.isLate ⟨.searchListing sftpId directory aborted, stamp⟩ = false ∨
      directory = v.session.currentPath := by
  simp only [orderly, hp, Bool.or_eq_true, decide_eq_true_iff, Option.isNone_iff_eq_none,
    Bool.not_eq_true', or_assoc] at hok
  exact hok

/-- What the condition says about the listing of a navigation. -/
theorem orderly_refresh {requestSeq stamp : ℕ} {previousPath : List Char}
    (hok : orderly v (.listed index entries) = true)
    (hp : v.requests[index]? = some ⟨.refresh sftpId path requestSeq (some previousPath), stamp⟩)
    (hfailed : entries = none) (hcurrent : v.isCurrentFileRequest sftpId path requestSeq = true) :
    v.session.filesPath = none ∨ some previousPath = some path := by
  subst hfailed
  simp only [orderly, hp, hcurrent, Option.isSome_none, Bool.not_true, Bool.false_or,
    Bool.or_eq_true, decide_eq_true_iff] at hok
  exact hok.imp_right (congrArg some)

theorem Inv.listed (h : Inv v) (hp : v.requests[index]? = some pending)
    (hok : orderly v (.listed index entries) = true)
    (hstep : v.listed index pending entries = some v') : Inv v' := by
  have hdone := h.finish hp
  have hpending := h.requests pending (List.mem_of_getElem? hp)
  obtain ⟨request, stamp⟩ := pending
  unfold View.listed at hstep
  cases request with
  | refresh sftpId path requestSeq previousPath =>
    obtain rfl := Option.some_inj.mp hstep
    refine hdone.refreshed (fun hfailed hback hcurrent => ?_) (hpending.refresh _ _ _ _ rfl).path
    obtain ⟨previous, rfl⟩ := Option.ne_none_iff_exists'.mp hback
    have hcurrent' : v.isCurrentFileRequest sftpId path requestSeq = true := hcurrent
    have hshown := orderly_refresh hok hp hfailed hcurrent'
    exact hshown
  | searchListing sftpId directory aborted =>
    obtain rfl := Option.some_inj.mp hstep
    exact hdone.searched (hpending.search _ _ _ rfl)
  | initialListing connectionId initialPath homePath =>
    cases entries with
    | some entries =>
      obtain rfl := Option.some_inj.mp hstep
      refine hdone.applySftp fun path heq _ => ?_
      exact ⟨entries, by rw [Option.some_inj.mp heq]⟩
    | none =>
      dsimp only at hstep
      split_ifs at hstep
      · obtain rfl := Option.some_inj.mp hstep
        exact hdone.applySftp fun _ heq => absurd heq (Option.some_ne_none _).symm
      · obtain rfl := Option.some_inj.mp hstep
        exact h.become (.other hpending.stamp (by simp) (by simp))
  | homeListing connectionId initialPath homePath =>
    cases entries with
    | some entries =>
      obtain rfl := Option.some_inj.mp hstep
      refine hdone.applySftp fun path heq hnormal => ?_
      obtain rfl := Option.some_inj.mp heq
      exact ⟨entries, by rw [hnormal]⟩
    | none =>
      obtain rfl := Option.some_inj.mp hstep
      exact hdone.applySftp fun _ heq => absurd heq (Option.some_ne_none _).symm
  | search => cases hstep
  | opening => cases hstep
  | done => cases hstep

theorem Inv.opened (h : Inv v) {ok : Bool} (hp : v.requests[index]? = some pending)
    (hstep : v.opened index pending ok = some v') : Inv v' := by
  have hpending := h.requests pending (List.mem_of_getElem? hp)
  unfold View.opened at hstep
  split at hstep
  · split_ifs at hstep
    · obtain rfl := Option.some_inj.mp hstep
      exact h.become (.other hpending.stamp (by simp) (by simp))
    · obtain rfl := Option.some_inj.mp hstep
      exact h.finish hp
  · cases hstep

theorem Inv.askListing (h : Inv v) (hp : v.requests[index]? = some pending) (sftpId : ℕ)
    {directory : List Char} (aborted : Bool) (hdirectory : normalizePath directory = directory) :
    Inv (v.become index pending (.searchListing sftpId directory aborted)) := by
  refine h.become ⟨(h.requests pending (List.mem_of_getElem? hp)).stamp, fun _ _ _ _ heq => ?_,
    fun _ _ _ heq => ?_⟩
  · cases heq
  · cases heq
    exact hdirectory

theorem Inv.found (h : Inv v) {targetPath : Option (List Char)}
    (hp : v.requests[index]? = some pending)
    (hstep : v.found index pending targetPath = some v') : Inv v' := by
  unfold View.found at hstep
  split at hstep
  · split at hstep
    · obtain rfl := Option.some_inj.mp hstep
      exact h.finish hp
    · split_ifs at hstep
      · obtain rfl := Option.some_inj.mp hstep
        exact h.finish hp
      · obtain rfl := Option.some_inj.mp hstep
        exact h.askListing hp _ _ (normalizePath_getParentPath _)
  · cases hstep

theorem Inv.abort (h : Inv v) (hp : v.requests[index]? = some pending)
    (hstep : v.abort index pending = some v') : Inv v' := by
  have hpending := h.requests pending (List.mem_of_getElem? hp)
  unfold View.abort at hstep
  split at hstep
  · obtain rfl := Option.some_inj.mp hstep
    exact h.become (.other hpending.stamp (by simp) (by simp))
  · rename_i hrequest
    obtain rfl := Option.some_inj.mp hstep
    exact h.askListing hp _ _ (hpending.search _ _ _ hrequest)
  · cases hstep

theorem Inv.connected (h : Inv v) (fallbackInitialPath : List Char)
    (loginPath : Option (List Char)) :
    ∀ v', step v (.connected fallbackInitialPath loginPath) = some v' → Inv v' := by
  intro v' hstep
  obtain rfl := Option.some_inj.mp hstep
  refine ⟨fun _ hpath => absurd hpath (Option.some_ne_none _).symm,
    fun _ hid => absurd hid (Option.some_ne_none _).symm, fun id hid => ?_,
    fun _ htarget => absurd htarget (Option.some_ne_none _).symm, fun p hp => ?_⟩
  · obtain rfl := Option.some_inj.mp hid
    exact Nat.lt_succ_self _
  · refine (h.requests p hp).imp (Nat.le_refl _) fun _ _ _ _ hr => ⟨hr.path,
      Nat.lt_succ_of_lt hr.known, hr.seq, fun hid => ?_, fun _ _ _ hid => ?_⟩
    · exact absurd (Option.some_inj.mp hid ▸ hr.known) (Nat.lt_irrefl _)
    · exact absurd (Option.some_inj.mp hid ▸ hr.known) (Nat.lt_irrefl _)

/-- **Every step that is orderly keeps the invariant.** -/
theorem Inv.step {e : Event ε} (h : Inv v) (hok : orderly v e = true)
    (hstep : step v e = some v') : Inv v' := by
  cases e with
  | connected path loginPath => exact h.connected path loginPath v' hstep
  | disconnected =>
    obtain rfl := Option.some_inj.mp hstep
    refine ⟨fun _ hpath => absurd hpath (Option.some_ne_none _).symm,
      fun _ hid => absurd hid (Option.some_ne_none _).symm,
      fun _ hid => absurd hid (Option.some_ne_none _).symm, h.target, fun p hp => ?_⟩
    exact (h.requests p hp).imp (Nat.le_refl _) fun _ _ _ _ hr => ⟨hr.path, hr.known, hr.seq,
      fun hid => absurd hid (Option.some_ne_none _).symm,
      fun _ _ _ hid => absurd hid (Option.some_ne_none _).symm⟩
  | changePath path =>
    obtain rfl := Option.some_inj.mp hstep
    exact h.changePath path
  | refreshSessionFiles =>
    unfold DirectoryView.step at hstep
    dsimp only at hstep
    split at hstep
    · obtain rfl := Option.some_inj.mp hstep
      exact h.ensureSessionSftp _
    · rename_i hsftp
      obtain rfl := Option.some_inj.mp hstep
      exact h.refreshFiles hsftp _ _
  | refreshFilesForTransfer sftpId remotePath =>
    unfold DirectoryView.step at hstep
    dsimp only at hstep
    split_ifs at hstep with hsame
    · obtain rfl := Option.some_inj.mp hstep
      exact h.refreshFiles hsame.1 _ _
    · obtain rfl := Option.some_inj.mp hstep
      exact h
  | refreshChanged sftpId =>
    unfold DirectoryView.step at hstep
    dsimp only at hstep
    split_ifs at hstep with hsame
    · obtain rfl := Option.some_inj.mp hstep
      exact h.refreshFiles hsame _ _
    · obtain rfl := Option.some_inj.mp hstep
      exact h
  | invalidateSftpDirectory sftpId directory =>
    unfold DirectoryView.step at hstep
    dsimp only at hstep
    split_ifs at hstep
    · obtain rfl := Option.some_inj.mp hstep
      exact h.show rfl rfl fun _ hpath => absurd hpath (Option.some_ne_none _).symm
    · obtain rfl := Option.some_inj.mp hstep
      exact h
  | ensureSessionSftp connectionId =>
    obtain rfl := Option.some_inj.mp hstep
    exact h.ensureSessionSftp _
  | searchRemoteFile =>
    unfold DirectoryView.step at hstep
    dsimp only at hstep
    split at hstep
    · obtain rfl := Option.some_inj.mp hstep
      exact h
    · obtain rfl := Option.some_inj.mp hstep
      exact h.ask (.other (Nat.le_refl _) (by simp) (by simp))
  | abort index =>
    obtain ⟨pending, hp, hstep⟩ := Option.bind_eq_some_iff.mp hstep
    exact h.abort hp hstep
  | opened index ok =>
    obtain ⟨pending, hp, hstep⟩ := Option.bind_eq_some_iff.mp hstep
    exact h.opened hp hstep
  | found index targetPath =>
    obtain ⟨pending, hp, hstep⟩ := Option.bind_eq_some_iff.mp hstep
    exact h.found hp hstep
  | listed index entries =>
    obtain ⟨pending, hp, hstep⟩ := Option.bind_eq_some_iff.mp hstep
    exact h.listed hp hok hstep

/-! ### Nothing leads away from the latest navigation -/

/-- An SFTP connection leads to the path shown, unless that is the one it was asked for and
could not be listed. -/
theorem applySftp_currentPath {connectionId : ℕ} {initialPath resultPath : List Char}
    {filesPath : Option (List Char)} {files : Option (Listing ε)}
    (hnormal : normalizePath v.session.currentPath = v.session.currentPath)
    (htrim : trim v.session.currentPath = v.session.currentPath)
    (hresult : v.session.currentPath = normalizePath initialPath →
      normalizePath resultPath = normalizePath initialPath) :
    (v.applySftp connectionId initialPath resultPath filesPath files).session.currentPath
      = v.session.currentPath := by
  have hlatest : normalizePath (remoteSessionPath v.session) = v.session.currentPath := by
    have hne : v.session.currentPath ≠ [] := by
      rw [← hnormal]
      exact List.cons_ne_nil _ _
    rw [remoteSessionPath, htrim, if_pos hne, hnormal, hnormal]
  have htarget : (if v.session.currentPath = normalizePath initialPath
      then normalizePath resultPath else v.session.currentPath) = v.session.currentPath := by
    split_ifs with hsame
    · rw [hresult hsame, hsame]
    · rfl
  unfold View.applySftp
  split_ifs with hgone
  · rfl
  · dsimp only
    rw [hlatest, htarget]
    split_ifs
    · rfl
    · rfl
    · rfl

/-- What the condition says about the listings of an SFTP connection that a navigation has
overtaken. -/
theorem orderly_opening {connectionId stamp : ℕ} {initialPath homePath : List Char}
    (hok : orderly v (.listed index entries) = true) :
    (v.requests[index]? = some ⟨.initialListing connectionId initialPath homePath, stamp⟩ →
      v.isLate ⟨.initialListing connectionId initialPath homePath, stamp⟩ = true →
        trim v.session.currentPath = v.session.currentPath) ∧
    (v.requests[index]? = some ⟨.homeListing connectionId initialPath homePath, stamp⟩ →
      v.isLate ⟨.homeListing connectionId initialPath homePath, stamp⟩ = true →
        trim v.session.currentPath = v.session.currentPath ∧
          (entries = none ∨ v.session.currentPath ≠ normalizePath initialPath)) := by
  constructor
  · intro hp hlate
    simpa only [orderly, hp, hlate, Bool.not_true, Bool.false_or, decide_eq_true_iff] using hok
  · intro hp hlate
    simpa only [orderly, hp, hlate, Bool.not_true, Bool.false_or, Bool.and_eq_true,
      Bool.or_eq_true, decide_eq_true_iff, Option.isNone_iff_eq_none] using hok

/-- **A listing leaves the target of a later navigation in place.** -/
theorem Inv.loyal_listed (h : Inv v)
    (hp : v.requests[index]? = some pending) (hok : orderly v (.listed index entries) = true)
    (hlate : v.isLate pending = true) (hstep : v.listed index pending entries = some v') :
    v'.session.currentPath = v.session.currentPath := by
  have hlate' := hlate
  simp only [View.isLate, Bool.and_eq_true, decide_eq_true_iff] at hlate'
  obtain ⟨hstamp, htarget⟩ := hlate'
  have hnormal := h.target _ htarget
  have hpending := h.requests pending (List.mem_of_getElem? hp)
  obtain ⟨request, stamp⟩ := pending
  unfold View.listed at hstep
  cases request with
  | refresh sftpId path requestSeq previousPath =>
    obtain rfl := Option.some_inj.mp hstep
    have hr := hpending.refresh _ _ _ _ rfl
    unfold View.refreshed
    split_ifs with hcurrent
    · split
      · rfl
      · -- The refresh is the latest one, so its connection is gone.
        simp only [View.isCurrentFileRequest, Bool.and_eq_true, decide_eq_true_iff] at hcurrent
        have hid : v.session.sftpId = some sftpId := hcurrent.1.2
        exact absurd (h.sftp _ hid)
          (hr.overtaken hcurrent.1.1.symm hstamp (Option.some_ne_none _))
      · rfl
    · rfl
  | searchListing sftpId directory aborted =>
    obtain rfl := Option.some_inj.mp hstep
    unfold View.searched
    split_ifs with hgone
    · rfl
    · obtain ⟨habort, hsftp⟩ := not_or.mp hgone
      rcases orderly_search hok hp with hcase | hcase | rfl | hcase | rfl
      · exact absurd hcase habort
      · exact absurd hcase hsftp
      · rfl
      · exact absurd (hlate.symm.trans hcase) (by decide)
      · cases entries with
        | none => rfl
        | some entries => rfl
  | initialListing connectionId initialPath homePath =>
    have htrim := (orderly_opening hok).1 hp hlate
    cases entries with
    | some entries =>
      obtain rfl := Option.some_inj.mp hstep
      exact applySftp_currentPath (v := v.become index _ .done) hnormal htrim fun _ => rfl
    | none =>
      dsimp only at hstep
      split_ifs at hstep
      · obtain rfl := Option.some_inj.mp hstep
        exact applySftp_currentPath (v := v.become index _ .done) hnormal htrim fun _ => rfl
      · obtain rfl := Option.some_inj.mp hstep
        rfl
  | homeListing connectionId initialPath homePath =>
    obtain ⟨htrim, hcase⟩ := (orderly_opening hok).2 hp hlate
    cases entries with
    | some entries =>
      obtain rfl := Option.some_inj.mp hstep
      refine applySftp_currentPath (v := v.become index _ .done) hnormal htrim fun hsame => ?_
      rcases hcase with hcase | hcase
      · cases hcase
      · exact absurd hsame hcase
    | none =>
      obtain rfl := Option.some_inj.mp hstep
      exact applySftp_currentPath (v := v.become index _ .done) hnormal htrim fun _ => rfl
  | search => cases hstep
  | opening => cases hstep
  | done => cases hstep

/-- **An answer leaves the target of a later navigation in place.** -/
theorem Inv.loyal {e : Event ε} (h : Inv v) (hok : orderly v e = true)
    (hstep : DirectoryView.step v e = some v') : Loyal v e v' := by
  intro pending hpending hlate
  cases e with
  | opened index ok =>
    obtain ⟨pending', hp, hstep⟩ := Option.bind_eq_some_iff.mp hstep
    unfold View.opened at hstep
    split at hstep
    · split_ifs at hstep
      · exact (Option.some_inj.mp hstep) ▸ rfl
      · exact (Option.some_inj.mp hstep) ▸ rfl
    · cases hstep
  | found index targetPath =>
    obtain ⟨pending', hp, hstep⟩ := Option.bind_eq_some_iff.mp hstep
    unfold View.found at hstep
    split at hstep
    · split at hstep
      · exact (Option.some_inj.mp hstep) ▸ rfl
      · split_ifs at hstep
        · exact (Option.some_inj.mp hstep) ▸ rfl
        · exact (Option.some_inj.mp hstep) ▸ rfl
    · cases hstep
  | listed index entries =>
    obtain ⟨pending', hp, hstep⟩ := Option.bind_eq_some_iff.mp hstep
    obtain rfl := Option.some_inj.mp (hp.symm.trans hpending)
    exact h.loyal_listed hp hok hlate hstep
  | connected => cases hpending
  | disconnected => cases hpending
  | changePath => cases hpending
  | refreshSessionFiles => cases hpending
  | refreshFilesForTransfer => cases hpending
  | refreshChanged => cases hpending
  | invalidateSftpDirectory => cases hpending
  | ensureSessionSftp => cases hpending
  | searchRemoteFile => cases hpending
  | abort => cases hpending

/-- A session that was never connected satisfies the invariant. -/
theorem inv_init (username currentPath : List Char) :
    Inv (init username currentPath : View ε) where
  shown _ hpath := absurd hpath (Option.some_ne_none _).symm
  sftp _ hid := absurd hid (Option.some_ne_none _).symm
  fresh _ hid := absurd hid (Option.some_ne_none _).symm
  target _ htarget := absurd htarget (Option.some_ne_none _).symm
  requests _ hp := absurd hp List.not_mem_nil

/-- **The directory view is consistent, and loyal to the user.**  In every run of connections,
navigations, refreshes, searches and SFTP connections, with their answers in any order: as long
as every answer is orderly, the listing shown is that of the path shown over the current SFTP
connection, and no answer to a request made before the latest navigation leads away from its
target. -/
theorem directory_view (username currentPath : List Char) {events : List (Event ε)} {v : View ε}
    (hrun : (machine ε username currentPath).run events = some v)
    (hok : (machine ε username currentPath).Meets (fun v e => orderly v e = true) events) :
    Consistent v ∧ ∀ e v', (machine ε username currentPath).step v e = some v' →
      orderly v e = true → Loyal v e v' := by
  have hinv : Inv v := Machine.run_invariant_of (I := Inv) (inv_init username currentPath)
    (fun _ _ _ h hok hstep => Inv.step h hok hstep) hok hrun
  exact ⟨hinv.consistent, fun e v' hstep hok => hinv.loyal hok hstep⟩

/-- A session is connected at `/srv`, opens SFTP and shows the listing. -/
def exampleOpening : List (Event ℕ) :=
  [.connected "/srv".toList none, .ensureSessionSftp none, .opened 0 true, .listed 0 (some 1)]

/-- A navigation and its listing, and then a refresh. -/
theorem directory_view_navigated : ∃ v,
    (machine ℕ "root".toList "/root".toList).run (exampleOpening ++ [.changePath "/etc".toList,
      .listed 1 (some 2), .refreshSessionFiles]) = some v ∧
    Consistent v ∧ v.session.filesPath = some "/etc".toList ∧
    ∃ v', (machine ℕ "root".toList "/root".toList).step v (.listed 2 (some 3)) = some v' ∧
      Loyal v (.listed 2 (some 3)) v' := by
  have hshown : ((machine ℕ "root".toList "/root".toList).run (exampleOpening ++
      [.changePath "/etc".toList, .listed 1 (some 2), .refreshSessionFiles])).map (fun v =>
        (v.session.filesPath, orderly v (.listed 2 (some 3)),
          ((machine ℕ "root".toList "/root".toList).step v (.listed 2 (some 3))).isSome))
        = some (some "/etc".toList, true, true) := by decide
  obtain ⟨v, hrun, heq⟩ := Option.map_eq_some_iff.mp hshown
  obtain ⟨hfiles, hrest⟩ := Prod.mk.inj heq
  obtain ⟨horderly, hsome⟩ := Prod.mk.inj hrest
  obtain ⟨v', hstep⟩ := Option.isSome_iff_exists.mp hsome
  have hview := directory_view "root".toList "/root".toList hrun (by decide)
  exact ⟨v, hrun, hview.1, hfiles, v', hstep, hview.2 _ _ hstep horderly⟩

/-- A navigation fails after a search has listed its directory: the path goes back, the listing
stays. -/
theorem undone_under_listing : ∃ v, (machine ℕ "root".toList "/root".toList).run
    (exampleOpening ++ [.changePath "/etc".toList, .invalidateSftpDirectory 0 "/etc".toList,
      .searchRemoteFile, .found 2 (some "/etc/hosts".toList), .listed 2 (some 2),
      .listed 1 none]) = some v ∧ ¬ Consistent v := by
  have hshown : ((machine ℕ "root".toList "/root".toList).run
      (exampleOpening ++ [.changePath "/etc".toList, .invalidateSftpDirectory 0 "/etc".toList,
        .searchRemoteFile, .found 2 (some "/etc/hosts".toList), .listed 2 (some 2),
        .listed 1 none])).map (fun v => (v.session.filesPath, v.session.sftpId,
          normalizePath v.session.currentPath))
        = some (some "/etc".toList, some 0, "/srv".toList) := by decide
  obtain ⟨v, hrun, heq⟩ := Option.map_eq_some_iff.mp hshown
  obtain ⟨hfiles, hrest⟩ := Prod.mk.inj heq
  obtain ⟨hsftp, hpath⟩ := Prod.mk.inj hrest
  refine ⟨v, hrun, fun hconsistent => ?_⟩
  have hsame := (hconsistent _ _ hfiles hsftp).1
  rw [hpath] at hsame
  exact absurd hsame (by decide)

end DirectoryView
end Frontend
end HelmSsh
