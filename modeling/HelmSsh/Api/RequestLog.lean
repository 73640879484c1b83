/-
# What the API log tells of commands

The log entries of `POST /api/exec`, `POST /api/exec/batch` and of a job
(`src-tauri/src/api_server/handlers_remote.rs`, `handlers_jobs.rs`), with the builders of
their texts (`mod.rs`).  An entry is made of the command and of how it ended; its time and
the identifier of the job come from outside.

`execution_log_response` reads the JSON of a result by its keys, so a result is given to it
as its keys and values (`toValue`).
-/

import HelmSsh.Api.Guard
import HelmSsh.Api.Jobs

namespace HelmSsh
namespace Api
namespace RequestLog

/-! ### The texts -/

/-- `str::to_ascii_lowercase`. -/
def toAsciiLowercase (s : List Char) : List Char :=
  s.map Char.toLower

/-- The markers of `contains_sensitive_log_marker`. -/
def sensitiveMarkers : List String :=
  ["password", "passwd", "passphrase", "secret", "token", "authorization", "bearer ", "api_key",
    "apikey", "access_key", "private_key", "private key", "id_rsa", "id_ed25519", "/etc/shadow",
    ".env", "credential", "cookie"]

/-- `contains_sensitive_log_marker`. -/
def containsSensitiveLogMarker (value : List Char) : Bool :=
  sensitiveMarkers.any (Guard.contains (toAsciiLowercase value))

/-- `truncate_for_log`. -/
def truncateForLog : List Char → ℕ → List Char
  | [], _ => []
  | _ :: _, 0 => "...".toList
  | c :: rest, maxChars + 1 => c :: truncateForLog rest maxChars

/-- The first word of a command. -/
def firstWord (command : String) : Option (List Char) :=
  (Words.words Text.isWhitespace command.toList).head?

/-- `command_log_detail`. -/
def commandLogDetail (command : String) (maxChars : ℕ) : String :=
  if containsSensitiveLogMarker command.toList then
    let executable := (firstWord command).getD "命令".toList
    String.ofList (truncateForLog executable (max (maxChars - 12) 1)) ++ " [敏感参数已隐藏]"
  else
    String.ofList (truncateForLog command.toList maxChars)

/-- `str::split_inclusive` at the ends of lines. -/
def splitInclusive : List Char → List (List Char)
  | [] => []
  | c :: rest =>
    if c = '\n' then
      [c] :: splitInclusive rest
    else
      match splitInclusive rest with
      | [] => [[c]]
      | line :: lines => (c :: line) :: lines

/-- What one line of the output becomes, if anything, and whether a private key goes on. -/
def redactLine (privateKeyBlock : Bool) (line : List Char) : Option (List Char) × Bool :=
  let lower := toAsciiLowercase line
  if Guard.contains lower "-----begin " && Guard.contains lower "private key-----" then
    (some "[私钥内容已隐藏]\n".toList, true)
  else if privateKeyBlock then
    (none, !(Guard.contains lower "-----end " && Guard.contains lower "private key-----"))
  else if containsSensitiveLogMarker line then
    (some "[敏感内容已隐藏]\n".toList, false)
  else
    (some line, false)

/-- The loop of `response_log_preview` over the lines. -/
def previewLines : List (List Char) → ℕ → Bool → List Char
  | [], _, _ => []
  | line :: lines, remaining, privateKeyBlock =>
    let (redacted, privateKeyBlock) := redactLine privateKeyBlock line
    match redacted with
    | none => previewLines lines remaining privateKeyBlock
    | some redacted =>
      let part := redacted.take remaining
      if remaining - part.length = 0 then
        part
      else
        part ++ previewLines lines (remaining - part.length) privateKeyBlock

/-- `response_log_preview`. -/
def responseLogPreview (command response : String) (maxChars : ℕ) : Option String :=
  if response = "" then
    none
  else if containsSensitiveLogMarker command.toList then
    some "[响应已隐藏：命令可能包含敏感信息]"
  else
    let preview := previewLines (splitInclusive response.toList) maxChars false
    if preview = [] then none else some (String.ofList preview)

/-- A value of a JSON record. -/
inductive Json
  | null
  | bool (value : Bool)
  | num (value : ℕ)
  | str (value : String)
  deriving DecidableEq

/-- `MAX_LOG_STREAM_CHARS`. -/
def maxLogStreamChars : ℕ := 64 * 1024

/-- `MAX_LOG_COMMAND_CHARS`. -/
def maxLogCommandChars : ℕ := 64 * 1024

/-- The keys that are copied. -/
def copiedKeys : List String :=
  ["exitStatus", "timedOut", "outputTruncated", "stdoutBytes", "stderrBytes", "durationMs",
    "executionMs", "queueMs", "connectionMs", "channelOpenMs", "status", "jobId"]

/-- One text of the record, with whether it was cut. -/
def logText (command : String) (source : List (String × Json)) (key : String) :
    List (String × Json) :=
  match source.lookup key with
  | some (.str text) =>
    [(key, .str ((responseLogPreview command text maxLogStreamChars).getD "")),
      (key ++ "Truncated", .bool (maxLogStreamChars < Text.charCount text))]
  | _ => []

/-- `execution_log_response`: the record whose JSON the entry carries. -/
def executionLogResponse (command : String) (source : List (String × Json)) :
    List (String × Json) :=
  [("logFormat", .str "exec-v1"), ("command", .str (commandLogDetail command maxLogCommandChars)),
      ("commandTruncated", .bool (maxLogCommandChars < Text.charCount command))] ++
    copiedKeys.filterMap (fun key => (source.lookup key).map fun value => (key, value)) ++
    ["stdout", "stderr", "error"].flatMap (logText command source)

/-- `str::replace`; `skip` counts the characters of a match that is under way. -/
def replaceFrom (pattern by' : List Char) : ℕ → List Char → List Char
  | _, [] => if pattern = [] then by' else []
  | skip + 1, _ :: rest => replaceFrom pattern by' skip rest
  | 0, c :: rest =>
    if pattern = [] then by' ++ c :: replaceFrom pattern by' 0 rest
    else if pattern <+: c :: rest then by' ++ replaceFrom pattern by' (pattern.length - 1) rest
    else c :: replaceFrom pattern by' 0 rest

/-- `friendly_error_detail`, with the names of the allowed sessions. -/
def friendlyErrorDetail (names : List (String × String)) (detail : String) : String :=
  String.ofList (names.foldl (fun output entry =>
    replaceFrom entry.1.toList entry.2.toList 0 output) detail.toList)

/-! ### The requests -/

/-- `ApiLogEntry`. -/
structure ApiLogEntry where
  timestamp : String
  action : String
  detail : String
  success : Bool
  durationMs : ℕ
  response : Option (List (String × Json))
  deriving DecidableEq

/-- What an entry takes from outside the request. -/
structure Circumstances where
  timestamp : String
  elapsedMs : ℕ
  /-- `allowed_session_names_snapshot`. -/
  names : List (String × String)

/-- `push_log_with_response`. -/
def entry (at' : Circumstances) (action detail : String) (success : Bool)
    (response : Option (List (String × Json))) : ApiLogEntry :=
  { timestamp := at'.timestamp, action, detail, success, durationMs := at'.elapsedMs, response }

/-- `ExecResult`. -/
structure ExecResult where
  stdout : String
  stderr : String
  stdoutBytes : ℕ
  stderrBytes : ℕ
  outputTruncated : Bool
  exitStatus : Option ℕ
  durationMs : ℕ
  executionMs : ℕ
  channelOpenMs : ℕ
  connectionMs : ℕ
  queueMs : ℕ
  timedOut : Bool
  deriving DecidableEq

/-- The JSON of an `ExecResult`. -/
def ExecResult.toValue (r : ExecResult) : List (String × Json) :=
  [("stdout", .str r.stdout), ("stderr", .str r.stderr), ("stdoutBytes", .num r.stdoutBytes),
    ("stderrBytes", .num r.stderrBytes), ("outputTruncated", .bool r.outputTruncated),
    ("exitStatus", (r.exitStatus.map Json.num).getD .null), ("durationMs", .num r.durationMs),
    ("executionMs", .num r.executionMs), ("channelOpenMs", .num r.channelOpenMs),
    ("connectionMs", .num r.connectionMs), ("queueMs", .num r.queueMs),
    ("timedOut", .bool r.timedOut)]

/-- `exec_success`. -/
def execSuccess (r : ExecResult) : Bool :=
  !r.timedOut && r.exitStatus.getD 1 = 0

/-- `MAX_API_COMMAND_BYTES`. -/
def maxApiCommandBytes : ℕ := 64 * 1024

/-- `strict_safety_mode`. -/
def strictSafetyMode (value : Option String) : Except String Bool :=
  let mode := toAsciiLowercase (Text.trim (value.getD "balanced")).toList
  if mode = "balanced".toList ∨ mode = "standard".toList then .ok false
  else if mode = "strict".toList then .ok true
  else .error "safetyMode 仅支持 balanced 或 strict"

/-- `validate_exec_request`, with the text of its error. -/
def validateExecRequest (U : Guard.CaseTable) (sessionId command : String)
    (safetyMode : Option String) : Except String Unit :=
  if Text.isBlank sessionId || Text.isBlank command then
    .error "缺少 sessionId 或 command"
  else if maxApiCommandBytes < command.utf8ByteSize then
    .error "command 不能超过 64 KiB"
  else
    match strictSafetyMode safetyMode with
    | .error message => .error message
    | .ok strict =>
      match Guard.checkDangerousCommand U command strict with
      | some reason => .error ("命令被拒绝: " ++ reason)
      | none => .ok ()

/-- A request to run a command. -/
structure ExecBody where
  sessionId : String
  command : String
  safetyMode : Option String

/-- How an accepted `POST /api/exec` goes on. -/
inductive ExecOutcome
  /-- The session is not accessible or not ready, or the queue is full. -/
  | refused
  /-- The access was withdrawn while the command ran. -/
  | revoked (result : ExecResult)
  | result (result : ExecResult)
  /-- `api_exec` failed. -/
  | error (message : String)

/-- The entries of `rest_exec`. -/
def restExec (U : Guard.CaseTable) (at' : Circumstances) (body : ExecBody)
    (outcome : ExecOutcome) : List ApiLogEntry :=
  match validateExecRequest U body.sessionId body.command body.safetyMode, outcome with
  | .ok (), .result result =>
    [entry at' "rest/exec" (commandLogDetail body.command 77) (execSuccess result)
      (some (executionLogResponse body.command result.toValue))]
  | .ok (), .error message =>
    [entry at' "rest/exec" (friendlyErrorDetail at'.names (body.command ++ " → " ++ message)) false
      none]
  | _, _ => []

/-- What the log reads of a `JobSnapshot`. -/
structure JobSnapshot where
  jobId : String
  status : JobStatus
  exitStatus : Option ℕ
  durationMs : Option ℕ
  queueMs : Option ℕ
  connectionMs : Option ℕ
  channelOpenMs : Option ℕ
  executionMs : Option ℕ
  timedOut : Bool
  error : Option String
  stdout : String
  stderr : String
  stdoutBytes : ℕ
  stderrBytes : ℕ
  outputTruncated : Bool
  deriving DecidableEq

/-- The name of a status in JSON. -/
def statusName : JobStatus → String
  | .queued => "queued"
  | .connecting => "connecting"
  | .running => "running"
  | .canceling => "canceling"
  | .completed => "completed"
  | .failed => "failed"
  | .canceled => "canceled"
  | .timedOut => "timedOut"

/-- The JSON of a `JobSnapshot`: what is `None` is left out. -/
def JobSnapshot.toValue (s : JobSnapshot) : List (String × Json) :=
  [("stdout", some (.str s.stdout)), ("stderr", some (.str s.stderr)),
    ("jobId", some (.str s.jobId)), ("status", some (.str (statusName s.status))),
    ("exitStatus", s.exitStatus.map .num), ("durationMs", s.durationMs.map .num),
    ("queueMs", s.queueMs.map .num), ("connectionMs", s.connectionMs.map .num),
    ("channelOpenMs", s.channelOpenMs.map .num), ("executionMs", s.executionMs.map .num),
    ("timedOut", some (.bool s.timedOut)), ("error", s.error.map .str),
    ("stdoutBytes", some (.num s.stdoutBytes)), ("stderrBytes", some (.num s.stderrBytes)),
    ("outputTruncated", some (.bool s.outputTruncated))].filterMap
    fun field => field.2.map fun value => (field.1, value)

/-- The entry of `rest_jobs_create`. -/
def jobCreated (at' : Circumstances) (body : ExecBody) (jobId : String) : ApiLogEntry :=
  { entry at' "rest/job-create" (jobId ++ " · " ++ commandLogDetail body.command 120) true none with
    durationMs := 0 }

/-- The entry of `execute_job` when the job has ended. -/
def jobFinished (at' : Circumstances) (body : ExecBody) (finished : JobSnapshot) : ApiLogEntry :=
  let preview := executionLogResponse body.command finished.toValue
  let detail := match finished.error with
    | some error => friendlyErrorDetail at'.names (body.command ++ " → " ++ error)
    | none => commandLogDetail body.command 120
  entry at' "rest/job" detail (finished.status = .completed) (some preview)

/-- The entries of a job, from its request to its end. -/
def restJob (U : Guard.CaseTable) (created ended : Circumstances) (body : ExecBody)
    (finished : JobSnapshot) : List ApiLogEntry :=
  match validateExecRequest U body.sessionId body.command body.safetyMode with
  | .ok () => [jobCreated created body finished.jobId, jobFinished ended body finished]
  | .error _ => []

/-- A request to run several commands. -/
structure BatchExecBody where
  sessionId : String
  commands : List String
  parallel : Bool
  stopOnError : Bool
  safetyMode : Option String

/-- The checks of `rest_exec_batch` on one command. -/
def validateBatchItem (U : Guard.CaseTable) (strict : Bool) (command : String) :
    Except String Unit :=
  if Text.isBlank command then
    .error "commands 中存在空命令"
  else if maxApiCommandBytes < command.utf8ByteSize then
    .error "commands 中的单条命令不能超过 64 KiB"
  else
    match Guard.checkDangerousCommand U command strict with
    | some reason => .error ("批量命令被拒绝: " ++ reason)
    | none => .ok ()

/-- The checks of `rest_exec_batch`. -/
def validateBatch (U : Guard.CaseTable) (body : BatchExecBody) : Except String Unit :=
  if Text.isBlank body.sessionId then
    .error "缺少 sessionId"
  else if body.commands = [] ∨ 32 < body.commands.length then
    .error "commands 数量必须在 1–32 之间"
  else do
    let strict ← strictSafetyMode body.safetyMode
    body.commands.forM (validateBatchItem U strict)

/-- `run_batch_exec_item`: whether the command succeeded. -/
def itemSuccess : ExecOutcome → Bool
  | .result result => execSuccess result
  | _ => false

/-- The results of the sequential loop, up to the first failure if it stops there. -/
def runSequential (stopOnError : Bool) : List ExecOutcome → List Bool
  | [] => []
  | outcome :: rest =>
    if stopOnError && !itemSuccess outcome then [false]
    else itemSuccess outcome :: runSequential stopOnError rest

/-- The entry of `rest_exec_batch` for a session that stays accessible, where `outcomes` are
those of the commands in their order. -/
def restExecBatch (U : Guard.CaseTable) (at' : Circumstances) (body : BatchExecBody)
    (outcomes : List ExecOutcome) : List ApiLogEntry :=
  match validateBatch U body with
  | .error _ => []
  | .ok () =>
    let outcomes := outcomes.take body.commands.length
    let results := if body.parallel then outcomes.map itemSuccess
      else runSequential body.stopOnError outcomes
    [entry at' "rest/exec-batch"
      (toString results.length ++ " 条 / " ++ (if body.parallel then "并行" else "顺序"))
      (results.all id) none]

end RequestLog
end Api
end HelmSsh
