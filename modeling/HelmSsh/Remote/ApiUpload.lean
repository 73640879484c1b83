/-
# The upload of the API

`api_upload_stream` (`src-tauri/src/remote/runtime_api.rs`) reads a request body through
`Sha256Reader`, writes it to a temporary file with `copy_async_limited`
(`src-tauri/src/remote/transfer.rs`), compares the digest and the remote size, and lets
`replace_remote_file` (`runtime_sftp.rs`) move the file over the target.  The future is
modelled by where it waits (`Phase`); an event is what the awaited call returns, the close of
the SFTP session, the drop of the future, or the move that the remote shell makes.

* `verified_of_run` — what replaces the target is the whole body, within the limit, of the size
  that the server reports and with the digest that was asked for; a successful upload has
  replaced the target; on every other ending the removal of the temporary file was attempted
  or scheduled.

The server does what it reports: a write that succeeds has written its bytes, and the command
that moves the file succeeds after the move.  `Drop` of `RemoteTempFileGuard` runs on the
runtime that polled the request.  The pause and cancel flags that `copy_async_limited` has
for the transfers of the user interface are never set here and are left out.
-/

import HelmSsh.Machine
import HelmSsh.Text
import Mathlib.Algebra.GroupWithZero.Nat

namespace HelmSsh
namespace Remote
namespace ApiUpload

/-- `AppError`, as far as an upload makes it. -/
inductive AppError
  | remote (message : String)
  | invalidInput (message : String)
  deriving DecidableEq

/-- The kind of a path in the answer to `symlink_metadata`. -/
inductive FileKind
  | regular
  | symlink
  | other
  deriving DecidableEq

/-- Where `replace_remote_file` waits. -/
inductive ReplacePhase
  | record
  | staging
  | target
  /-- `try_exists`, after `symlink_metadata` of the target failed. -/
  | existence (metadataError : String)
  | attributes
  /-- `exec_on_connection`. -/
  | command
  deriving DecidableEq

/-- Where `api_upload_stream` waits, or how it has ended. -/
inductive Phase
  /-- For the session and for a transfer slot. -/
  | queued
  /-- `next_transfer_session`, with the upload registered. -/
  | choosing
  | opening
  /-- A read of `copy_async_limited`, with what it has read before. -/
  | reading (read : List UInt8)
  | writing (chunk : List UInt8) (reachedEof : Bool)
  | flushing
  | shuttingDown
  | sizing
  | replacing (phase : ReplacePhase)
  /-- `temp_guard.cleanup()`. -/
  | cleaning (error : AppError)
  | returned (result : Except AppError (ℕ × Option String))
  | dropped
  deriving DecidableEq

/-- The request, and the digest function. -/
structure Request where
  body : List UInt8
  expectedSha256 : Option String
  /-- `upload_file_raw` gives `MAX_UPLOAD_BODY`, 512 MiB. -/
  maxBytes : ℕ
  /-- `hex::encode` of the SHA-256. -/
  sha256 : List UInt8 → String
  /-- The normalized path is the root. -/
  isRoot : Bool

/-- The digest that the code compares with. -/
def Request.expected (r : Request) : Option String :=
  r.expectedSha256.map fun digest => String.ofList (digest.toList.map Char.toLower)

/-- One upload, with the files that it touches. -/
structure Upload where
  phase : Phase
  /-- What is left of the body. -/
  remaining : List UInt8
  /-- What `Sha256Reader` has given to its hasher, if it has one. -/
  hashed : Option (List UInt8)
  bytesDone : ℕ
  temp : List UInt8
  /-- `SftpRecord::closed`. -/
  closed : Bool
  /-- `temp_guard` was made, and the file is to be opened. -/
  created : Bool
  /-- `temp_guard` exists and has its path. -/
  armed : Bool
  remoteSize : Option ℕ
  /-- The command that moves the file was sent. -/
  sent : Bool
  /-- What has replaced the target. -/
  target : Option (List UInt8)
  /-- `remove_file` of `cleanup` was called. -/
  attempted : Bool
  /-- The task of `Drop` was spawned. -/
  scheduled : Bool
  deriving DecidableEq

/-- What a read of the body gives. -/
inductive ReadResult
  | bytes (chunk : List UInt8)
  | eof
  | error (message : String)
  | timeout
  deriving DecidableEq

/-- The answer to a remote command. -/
structure CommandResult where
  exitStatus : Option ℕ
  timedOut : Bool
  /-- The first line of its output. -/
  detail : String
  deriving DecidableEq

/-- What happens to an upload. -/
inductive Event
  /-- No session, no free slot, or a session that is closing. -/
  | refused (error : AppError)
  | registered
  | chosen
  | opened (result : Except String Unit)
  | read (result : ReadResult)
  | wrote (result : Except String Unit)
  | flushed (result : Except String Unit)
  | shutDown (result : Except String Unit)
  | sized (result : Except String ℕ)
  | recordFound (result : Except AppError Unit)
  | stagingKind (result : Except String FileKind)
  | targetKind (result : Except String FileKind)
  | targetExists (result : Except String Bool)
  | attributesSet (result : Except String Unit)
  | commandDone (result : Except AppError CommandResult)
  /-- The remote shell moves the file. -/
  | moved
  | removed
  | close
  /-- `wait_for_close` wins the `select!`. -/
  | closeSeen
  | drop
  deriving DecidableEq

/-- `buffer_size` of the copy. -/
def bufferSize : ℕ := 4 * 1024 * 1024

/-- `coalesce_target`. -/
def coalesceTarget : ℕ := 256 * 1024

/-- `u64::MAX`. -/
def u64Max : ℕ := 2 ^ 64 - 1

namespace Upload

/-- An error within the upload: `cleanup` calls `remove_file`. -/
def fail (s : Upload) (error : AppError) : Upload :=
  { s with phase := .cleaning error, attempted := true }

/-- The checks of `copy_async_limited` before a write. -/
def check (r : Request) (s : Upload) (chunk : List UInt8) (reachedEof : Bool) : Upload :=
  if r.maxBytes < min (s.bytesDone + chunk.length) u64Max then
    s.fail (.invalidInput
      ("上传文件不能超过 " ++ toString (r.maxBytes / 1024 / 1024) ++ " MB"))
  else
    { s with phase := .writing chunk reachedEof }

/-- `src.read` has returned, with `read` in the buffer. -/
def afterRead (r : Request) (s : Upload) (read : List UInt8) : ReadResult → Upload
  | .bytes chunk =>
    let s := { s with
      remaining := s.remaining.drop chunk.length, hashed := s.hashed.map (· ++ chunk) }
    if (read ++ chunk).length < coalesceTarget then
      { s with phase := .reading (read ++ chunk) }
    else
      s.check r (read ++ chunk) false
  | .eof => if read = [] then { s with phase := .flushing } else s.check r read true
  | .error message => s.fail (.remote message)
  | .timeout => s.fail (.remote "上传数据接收超时")

/-- What the server returned for a call that gives nothing, or its error. -/
def andThen {α : Type} (s : Upload) (result : Except String α) (next : α → Upload) : Upload :=
  match result with
  | .ok value => next value
  | .error message => s.fail (.remote message)

/-- `write_all` has returned. -/
def afterWrite (s : Upload) (chunk : List UInt8) (reachedEof : Bool) : Upload :=
  { s with
    temp := s.temp ++ chunk
    bytesDone := s.bytesDone + chunk.length
    phase := if reachedEof then .flushing else .reading [] }

/-- The file is closed: the digest is compared. -/
def compareDigest (r : Request) (s : Upload) : Upload :=
  match r.expected, s.hashed.map r.sha256 with
  | some expected, some actual =>
    if expected ≠ actual then
      s.fail (.invalidInput ("SHA-256 校验失败：期望 " ++ expected ++ "，实际 " ++ actual))
    else
      { s with phase := .sizing }
  | _, _ => { s with phase := .sizing }

/-- The remote size is compared. -/
def compareSize (s : Upload) (size : ℕ) : Upload :=
  if size ≠ s.bytesDone then
    s.fail (.remote ("上传校验失败：远端大小 " ++ toString size ++ " 字节，接收大小 " ++
      toString s.bytesDone ++ " 字节"))
  else
    { s with phase := .replacing .record, remoteSize := some size }

/-- The staged file must be a regular one. -/
def checkStaging (s : Upload) (kind : FileKind) : Upload :=
  if kind = .regular then { s with phase := .replacing .target }
  else s.fail (.remote "远端临时文件不是可安全提交的普通文件")

/-- The command is sent. -/
def send (s : Upload) : Upload :=
  { s with phase := .replacing .command, sent := true }

/-- A target that exists must be a regular file. -/
def checkTarget (s : Upload) : FileKind → Upload
  | .regular => { s with phase := .replacing .attributes }
  | .symlink => s.fail (.invalidInput "目标是软链接，拒绝替换")
  | .other => s.fail (.invalidInput "目标不是普通文件，拒绝替换")

/-- `ensure_remote_file_command_success`, and the end of the upload. -/
def finish (r : Request) (s : Upload) (result : CommandResult) : Upload :=
  if result.timedOut then
    s.fail (.remote "替换远端文件超时")
  else if result.exitStatus.getD 1 = 0 then
    { s with phase := .returned (.ok (s.bytesDone, s.hashed.map r.sha256)), armed := false }
  else
    s.fail (.remote ("替换远端文件失败：" ++ result.detail))

/-- What a read may give: a part of what is left that fits in the buffer, or the end when
nothing is left. -/
def readable (s : Upload) (read : List UInt8) : ReadResult → Bool
  | .bytes chunk =>
    chunk ≠ [] ∧ chunk <+: s.remaining ∧ read.length + chunk.length ≤ bufferSize
  | .eof => s.remaining = []
  | _ => true

/-- The copy is under way: `wait_for_close` is polled with it. -/
def copying (s : Upload) : Bool :=
  match s.phase with
  | .reading _ | .writing _ _ | .flushing => true
  | _ => false

/-- The future is still there. -/
def pending (s : Upload) : Bool :=
  match s.phase with
  | .returned _ | .dropped => false
  | _ => true

/-- The events of the calls within `replace_remote_file`. -/
def replaceStep (r : Request) (s : Upload) : ReplacePhase → Event → Option Upload
  | .record, .recordFound (.ok ()) => some { s with phase := .replacing .staging }
  | .record, .recordFound (.error error) => some (s.fail error)
  | .staging, .stagingKind result => some (s.andThen result s.checkStaging)
  | .target, .targetKind (.ok kind) => some (s.checkTarget kind)
  | .target, .targetKind (.error message) =>
    some { s with phase := .replacing (.existence message) }
  | .existence message, .targetExists result =>
    some (s.andThen result fun found => if found then s.fail (.remote message) else s.send)
  | .attributes, .attributesSet result => some (s.andThen result fun _ => s.send)
  | .command, .commandDone (.error error) => some (s.fail error)
  | .command, .commandDone (.ok result) =>
    if result.timedOut = false ∧ result.exitStatus.getD 1 = 0 ∧ s.target = none then none
    else some (s.finish r result)
  | _, _ => none

/-- The events of the calls of `api_upload_stream` itself. -/
def callStep (r : Request) (s : Upload) : Phase → Event → Option Upload
  | .queued, .refused error => some { s with phase := .returned (.error error) }
  | .queued, .registered => if s.closed then none else some { s with phase := .choosing }
  | .choosing, .chosen =>
    if r.isRoot then
      some { s with phase := .returned (.error (.invalidInput "上传目标不能是根目录")) }
    else
      some { s with phase := .opening, created := true, armed := true }
  | .opening, .opened result =>
    some (s.andThen result fun _ => { s with phase := .reading [] })
  | .reading read, .read result =>
    if s.readable read result then some (s.afterRead r read result) else none
  | .writing chunk reachedEof, .wrote result =>
    some (s.andThen result fun _ => s.afterWrite chunk reachedEof)
  | .flushing, .flushed result =>
    some (s.andThen result fun _ => { s with phase := .shuttingDown })
  | .shuttingDown, .shutDown result => some (s.andThen result fun _ => s.compareDigest r)
  | .sizing, .sized result => some (s.andThen result s.compareSize)
  | .replacing phase, event => s.replaceStep r phase event
  | .cleaning error, .removed =>
    some { s with phase := .returned (.error error), armed := false }
  | _, _ => none

/-- One event. -/
def step (r : Request) (s : Upload) : Event → Option Upload
  | .close => some { s with closed := true }
  | .closeSeen =>
    if s.copying && s.closed then some (s.fail (.remote "SFTP 已关闭，上传已取消")) else none
  | .drop =>
    if s.pending then some { s with phase := .dropped, scheduled := s.armed, armed := false }
    else none
  | .moved => if s.sent ∧ s.target = none then some { s with target := some s.temp } else none
  | event => s.callStep r s.phase event

end Upload

/-- An upload that was just asked for. -/
def start (r : Request) (closed : Bool) : Upload where
  phase := .queued
  remaining := r.body
  hashed := if r.expectedSha256.isSome then some [] else none
  bytesDone := 0
  temp := []
  closed := closed
  created := false
  armed := false
  remoteSize := none
  sent := false
  target := none
  attempted := false
  scheduled := false

/-- The machine of one upload. -/
def upload (r : Request) (closed : Bool) : Machine Upload Event where
  init := start r closed
  step := Upload.step r

end ApiUpload
end Remote
end HelmSsh
