/-
# The secrecy of the API log

A command with a sensitive marker is shown in the log by its first word, and its output is
hidden: `commandLogDetail_eq` and `executionLogResponse_eq` for the texts.  So two requests
with the same first word, both with a marker, and with outcomes that differ in the output
only, leave equal entries (`ExecConfidential`, `JobConfidential`, `BatchConfidential`).

That is so for every outcome but an error (`log_confidential`): `rest_exec` and `execute_job`
(`src-tauri/src/api_server/handlers_remote.rs`, `handlers_jobs.rs`) write the command itself
before the text of an error (`failed_command_logged`).
-/

import Mathlib.Data.List.Forall2
import Mathlib.Data.String.Basic
import HelmSsh.Api.RequestLog

namespace HelmSsh
namespace Api
namespace RequestLog

/-! ### Likeness -/

/-- Both commands have a marker, and they have the same first word. -/
structure AlikeCommands (c c' : String) : Prop where
  marker : containsSensitiveLogMarker c.toList = true
  marker' : containsSensitiveLogMarker c'.toList = true
  word : firstWord c = firstWord c'

/-- The texts have the same number of characters. -/
def SameLength (text text' : String) : Prop :=
  Text.charCount text = Text.charCount text'

/-- The results differ in the contents of their output only. -/
structure AlikeResults (r r' : ExecResult) : Prop where
  rest : { r with stdout := r'.stdout, stderr := r'.stderr } = r'
  stdout : SameLength r.stdout r'.stdout
  stderr : SameLength r.stderr r'.stderr

/-- And so do the outcomes. -/
inductive AlikeOutcomes : ExecOutcome → ExecOutcome → Prop
  | refused : AlikeOutcomes .refused .refused
  | revoked {r r' : ExecResult} (h : AlikeResults r r') :
    AlikeOutcomes (.revoked r) (.revoked r')
  | result {r r' : ExecResult} (h : AlikeResults r r') : AlikeOutcomes (.result r) (.result r')
  | error (message : String) : AlikeOutcomes (.error message) (.error message)

/-- The jobs ended alike but for the contents of their output. -/
structure AlikeJobs (s s' : JobSnapshot) : Prop where
  rest : { s with stdout := s'.stdout, stderr := s'.stderr } = s'
  stdout : SameLength s.stdout s'.stdout
  stderr : SameLength s.stderr s'.stderr

/-! ### The texts -/

section Texts

variable {c c' : String}

theorem commandLogDetail_eq (h : AlikeCommands c c') (maxChars : ℕ) :
    commandLogDetail c maxChars = commandLogDetail c' maxChars := by
  rw [commandLogDetail, commandLogDetail, if_pos h.marker, if_pos h.marker', h.word]

theorem charCount_eq_zero {text : String} : Text.charCount text = 0 ↔ text = "" := by
  rw [Text.charCount, List.length_eq_zero_iff, String.toList_eq_nil_iff]

theorem responseLogPreview_eq (h : AlikeCommands c c') {text text' : String}
    (hlength : SameLength text text') (maxChars : ℕ) :
    responseLogPreview c text maxChars = responseLogPreview c' text' maxChars := by
  have hempty : text = "" ↔ text' = "" := by
    rw [← charCount_eq_zero, ← charCount_eq_zero, hlength]
  by_cases htext : text = ""
  · rw [responseLogPreview, responseLogPreview, if_pos htext, if_pos (hempty.mp htext)]
  · rw [responseLogPreview, responseLogPreview, if_neg htext, if_neg fun h => htext (hempty.mpr h),
      if_pos h.marker, if_pos h.marker']

/-- The values under a key are the same, or texts of the same length. -/
def AlikeValues (v v' : Option Json) : Prop :=
  v = v' ∨ ∃ text text', v = some (.str text) ∧ v' = some (.str text') ∧ SameLength text text'

theorem logText_eq (h : AlikeCommands c c') {source source' : List (String × Json)} {key : String}
    (hsource : AlikeValues (source.lookup key) (source'.lookup key)) :
    logText c source key = logText c' source' key := by
  rw [logText, logText]
  rcases hsource with heq | ⟨text, text', htext, htext', hlength⟩
  · rw [heq]
    cases source'.lookup key with
    | none => rfl
    | some value =>
      cases value with
      | null => rfl
      | bool b => rfl
      | num n => rfl
      | str text =>
        dsimp only
        rw [responseLogPreview_eq h (rfl : SameLength text text)]
  · rw [htext, htext']
    dsimp only
    rw [responseLogPreview_eq h hlength, hlength]

/-- **The record of a result does not depend on the rest of the command, nor on the contents of
the output.** -/
theorem executionLogResponse_eq (h : AlikeCommands c c')
    (hshort : Text.charCount c ≤ maxLogCommandChars)
    (hshort' : Text.charCount c' ≤ maxLogCommandChars) {source source' : List (String × Json)}
    (hcopied : ∀ key ∈ copiedKeys, source.lookup key = source'.lookup key)
    (htexts : ∀ key ∈ ["stdout", "stderr", "error"],
      AlikeValues (source.lookup key) (source'.lookup key)) :
    executionLogResponse c source = executionLogResponse c' source' := by
  have hcut : ∀ {command : String}, Text.charCount command ≤ maxLogCommandChars →
      decide (maxLogCommandChars < Text.charCount command) = false := fun h =>
    decide_eq_false (by omega)
  have hfields : copiedKeys.filterMap (fun key => (source.lookup key).map fun value =>
      (key, value)) = copiedKeys.filterMap fun key => (source'.lookup key).map fun value =>
        (key, value) :=
    List.filterMap_congr fun key hkey => by rw [hcopied key hkey]
  have houtput : ["stdout", "stderr", "error"].flatMap (logText c source) =
      ["stdout", "stderr", "error"].flatMap (logText c' source') :=
    List.flatMap_congr fun key hkey => logText_eq h (htexts key hkey)
  rw [executionLogResponse, executionLogResponse, commandLogDetail_eq h, hcut hshort,
    hcut hshort', hfields, houtput]

/-- The JSON of a result: its output and the rest. -/
def valueOf (stdout stderr : String) (tail : List (String × Json)) : List (String × Json) :=
  ("stdout", .str stdout) :: ("stderr", .str stderr) :: tail

/-- The record of a result whose output has other contents. -/
theorem executionLogResponse_valueOf (h : AlikeCommands c c')
    (hshort : Text.charCount c ≤ maxLogCommandChars)
    (hshort' : Text.charCount c' ≤ maxLogCommandChars) {stdout stdout' stderr stderr' : String}
    (hstdout : SameLength stdout stdout') (hstderr : SameLength stderr stderr')
    (tail : List (String × Json)) :
    executionLogResponse c (valueOf stdout stderr tail) =
      executionLogResponse c' (valueOf stdout' stderr' tail) := by
  have hother : ∀ {key : String}, key ≠ "stdout" → key ≠ "stderr" →
      (valueOf stdout stderr tail).lookup key = (valueOf stdout' stderr' tail).lookup key := by
    intro key hout herr
    have hout : (key == "stdout") = false := beq_false_of_ne hout
    have herr : (key == "stderr") = false := beq_false_of_ne herr
    rw [valueOf, valueOf, List.lookup_cons, List.lookup_cons, List.lookup_cons, List.lookup_cons,
      hout, herr]
  refine executionLogResponse_eq h hshort hshort' (fun key hkey => ?_) fun key hkey => ?_
  · have hkeys : ∀ key ∈ copiedKeys, key ≠ "stdout" ∧ key ≠ "stderr" := by decide
    exact hother (hkeys key hkey).1 (hkeys key hkey).2
  · rw [List.mem_cons, List.mem_cons, List.mem_singleton] at hkey
    rcases hkey with rfl | rfl | rfl
    · exact .inr ⟨stdout, stdout', rfl, rfl, hstdout⟩
    · exact .inr ⟨stderr, stderr', rfl, rfl, hstderr⟩
    · exact .inl (hother (by decide) (by decide))

end Texts

/-! ### The requests -/

section Requests

variable {U : Guard.CaseTable} {body body' : ExecBody}

theorem short_of_valid
    (h : validateExecRequest U body.sessionId body.command body.safetyMode = .ok ()) :
    Text.charCount body.command ≤ maxLogCommandChars := by
  have hbytes : body.command.utf8ByteSize ≤ maxApiCommandBytes := by
    rw [validateExecRequest] at h
    split_ifs at h with hblank hlong
    exact Nat.le_of_not_lt hlong
  have hchars : ∀ s : List Char, s.length ≤ (String.ofList s).utf8ByteSize := by
    intro s
    rw [String.utf8ByteSize_ofList]
    induction s with
    | nil => exact Nat.le_refl 0
    | cons c s ih =>
      have hone : 0 < c.utf8Size := Char.utf8Size_pos c
      rw [String.utf8Len_cons, List.length_cons]
      omega
  have h := hchars body.command.toList
  rw [String.ofList_toList] at h
  exact h.trans hbytes

/-- The requests are accepted, and their commands are alike. -/
structure AlikeRequests (U : Guard.CaseTable) (body body' : ExecBody) : Prop where
  commands : AlikeCommands body.command body'.command
  valid : validateExecRequest U body.sessionId body.command body.safetyMode = .ok ()
  valid' : validateExecRequest U body'.sessionId body'.command body'.safetyMode = .ok ()

theorem execRecord_eq (h : AlikeRequests U body body') {r r' : ExecResult}
    (hresult : AlikeResults r r') :
    executionLogResponse body.command r.toValue =
      executionLogResponse body'.command r'.toValue := by
  have htail : r'.toValue = valueOf r'.stdout r'.stderr (r.toValue.drop 2) := by
    conv_lhs => rw [← hresult.rest]
    rfl
  rw [htail]
  exact executionLogResponse_valueOf h.commands (short_of_valid h.valid) (short_of_valid h.valid')
    hresult.stdout hresult.stderr _

theorem jobRecord_eq (h : AlikeRequests U body body') {s s' : JobSnapshot} (hjob : AlikeJobs s s') :
    executionLogResponse body.command s.toValue =
      executionLogResponse body'.command s'.toValue := by
  have htail : s'.toValue = valueOf s'.stdout s'.stderr (s.toValue.drop 2) := by
    conv_lhs => rw [← hjob.rest]
    rfl
  rw [htail]
  exact executionLogResponse_valueOf h.commands (short_of_valid h.valid) (short_of_valid h.valid')
    hjob.stdout hjob.stderr _

/-- **The entry of an outcome that is no error tells only the first word.** -/
theorem restExec_eq (h : AlikeRequests U body body') (at' : Circumstances) {o o' : ExecOutcome}
    (ho : AlikeOutcomes o o') (hok : ∀ message, o ≠ .error message) :
    restExec U at' body o = restExec U at' body' o' := by
  unfold restExec
  rw [h.valid, h.valid']
  cases ho with
  | refused => rfl
  | revoked hresult => rfl
  | @result r r' hresult =>
    have hsuccess : execSuccess r = execSuccess r' := by
      rw [← hresult.rest]
      rfl
    dsimp only
    rw [execRecord_eq h hresult, commandLogDetail_eq h.commands, hsuccess]
  | error message => exact absurd rfl (hok message)

/-- **And so do the entries of a job that ends without an error.** -/
theorem restJob_eq (h : AlikeRequests U body body') (created ended : Circumstances)
    {s s' : JobSnapshot} (hjob : AlikeJobs s s') (hok : s.error = none) :
    restJob U created ended body s = restJob U created ended body' s' := by
  have hid : s.jobId = s'.jobId := by
    rw [← hjob.rest]
  have herror : s'.error = none := by
    rw [← hjob.rest]
    exact hok
  have hstatus : s.status = s'.status := by
    rw [← hjob.rest]
  rw [restJob, restJob, h.valid, h.valid']
  dsimp only
  rw [jobCreated, jobCreated, jobFinished, jobFinished, hok, herror]
  dsimp only
  rw [jobRecord_eq h hjob, commandLogDetail_eq h.commands, hid, hstatus]

/-- The text of an error is written behind the whole command. -/
theorem command_of_error {c c' message : String}
    (h : friendlyErrorDetail [] (c ++ " → " ++ message) =
      friendlyErrorDetail [] (c' ++ " → " ++ message)) : c = c' := by
  rw [friendlyErrorDetail, friendlyErrorDetail, List.foldl_nil, List.foldl_nil,
    String.ofList_toList, String.ofList_toList] at h
  have hlists := congrArg String.toList h
  rw [String.toList_append, String.toList_append, String.toList_append,
    String.toList_append] at hlists
  exact String.toList_injective
    (List.append_cancel_right (List.append_cancel_right hlists))

end Requests

/-! ### The log -/

/-- The entries of a request that ends so tell of the command only its first word, and of the
output nothing. -/
def ExecConfidential (o : ExecOutcome) : Prop :=
  ∀ U at' body body' o', AlikeRequests U body body' → AlikeOutcomes o o' →
    restExec U at' body o = restExec U at' body' o'

/-- The same for a job. -/
def JobConfidential (s : JobSnapshot) : Prop :=
  ∀ U created ended body body' s', AlikeRequests U body body' → AlikeJobs s s' →
    restJob U created ended body s = restJob U created ended body' s'

/-- The same for several commands. -/
def BatchConfidential (os : List ExecOutcome) : Prop :=
  ∀ U at' (body body' : BatchExecBody) os', validateBatch U body = .ok () →
    validateBatch U body' = .ok () → List.Forall₂ AlikeCommands body.commands body'.commands →
    body.parallel = body'.parallel → body.stopOnError = body'.stopOnError →
    List.Forall₂ AlikeOutcomes os os' → restExecBatch U at' body os = restExecBatch U at' body' os'

/-- The number of results, and whether all succeeded, of alike outcomes. -/
theorem itemSuccess_eq {o o' : ExecOutcome} (h : AlikeOutcomes o o') :
    itemSuccess o = itemSuccess o' := by
  cases h with
  | refused => rfl
  | revoked hresult => rfl
  | @result r r' hresult =>
    show execSuccess r = execSuccess r'
    rw [← hresult.rest]
    rfl
  | error message => rfl

theorem map_itemSuccess_eq {os os' : List ExecOutcome} (h : List.Forall₂ AlikeOutcomes os os') :
    os.map itemSuccess = os'.map itemSuccess := by
  induction h with
  | nil => rfl
  | cons hitem _ ih => rw [List.map_cons, List.map_cons, itemSuccess_eq hitem, ih]

theorem runSequential_eq {stopOnError : Bool} {os os' : List ExecOutcome}
    (h : List.Forall₂ AlikeOutcomes os os') :
    runSequential stopOnError os = runSequential stopOnError os' := by
  induction h with
  | nil => rfl
  | cons hitem _ ih => rw [runSequential, runSequential, itemSuccess_eq hitem, ih]

theorem batchConfidential (os : List ExecOutcome) : BatchConfidential os := by
  intro U at' body body' os' hvalid hvalid' hcommands hparallel hstop hos
  have hlength : body.commands.length = body'.commands.length := hcommands.length_eq
  have htake := List.forall₂_take body'.commands.length hos
  unfold restExecBatch
  rw [hvalid, hvalid', hlength]
  dsimp only
  rw [map_itemSuccess_eq htake, runSequential_eq htake, hparallel, hstop]

/-- A command with a marker. -/
def tokenBody (command : String) : ExecBody where
  sessionId := "s"
  command := command
  safetyMode := none

theorem tokenBody_alike : AlikeRequests Guard.exampleTable (tokenBody "curl token=a")
    (tokenBody "curl token=b") where
  commands := ⟨by decide, by decide, by decide⟩
  valid := by decide
  valid' := by decide

theorem JobSnapshot.alike (s : JobSnapshot) : AlikeJobs s s := ⟨rfl, rfl, rfl⟩

/-- **The log keeps the secrets of every request but the failed one.**  A request to run a
command leaves entries that depend on the command only through its first word, and not on
the contents of the output, exactly when it does not end in an error; a job, exactly when it
has none; a batch, always. -/
theorem log_confidential (o : ExecOutcome) (s : JobSnapshot) (os : List ExecOutcome) :
    (ExecConfidential o ↔ ∀ message, o ≠ .error message) ∧
      (JobConfidential s ↔ s.error = none) ∧ BatchConfidential os := by
  refine ⟨⟨?_, ?_⟩, ⟨?_, ?_⟩, batchConfidential os⟩
  · rintro h message rfl
    have heq := h _ ⟨"", 0, []⟩ _ _ _ tokenBody_alike (.error message)
    unfold restExec at heq
    rw [tokenBody_alike.valid, tokenBody_alike.valid'] at heq
    have hdetail := congrArg ApiLogEntry.detail (List.cons.inj heq).1
    exact absurd (command_of_error hdetail) (by decide)
  · exact fun hok U at' body body' o' hbody ho => restExec_eq hbody at' ho hok
  · intro h
    by_contra hsome
    obtain ⟨message, hmessage⟩ := Option.ne_none_iff_exists'.mp hsome
    have heq := h _ ⟨"", 0, []⟩ ⟨"", 0, []⟩ _ _ _ tokenBody_alike s.alike
    unfold restJob at heq
    rw [tokenBody_alike.valid, tokenBody_alike.valid'] at heq
    have hlast := (List.cons.inj (List.cons.inj heq).2).1
    have hdetail := congrArg ApiLogEntry.detail hlast
    unfold jobFinished at hdetail
    rw [hmessage] at hdetail
    exact absurd (command_of_error hdetail) (by decide)
  · exact fun hok U created ended body body' s' hbody hjob =>
      restJob_eq hbody created ended hjob hok

/-- The circumstances of a request without allowed names. -/
def noon : Circumstances where
  timestamp := "2026-01-01 12:00:00"
  elapsedMs := 5
  names := []

/-- **The entry of a failed request holds the secret**: two requests that are alike leave
different entries. -/
theorem failed_command_logged :
    AlikeRequests Guard.exampleTable (tokenBody "curl token=a") (tokenBody "curl token=b") ∧
      (restExec Guard.exampleTable noon (tokenBody "curl token=a") (.error "连接已断开")).map
          ApiLogEntry.detail = ["curl token=a → 连接已断开"] ∧
      restExec Guard.exampleTable noon (tokenBody "curl token=a") (.error "连接已断开") ≠
        restExec Guard.exampleTable noon (tokenBody "curl token=b") (.error "连接已断开") := by
  unfold restExec
  rw [tokenBody_alike.valid, tokenBody_alike.valid']
  exact ⟨tokenBody_alike, by decide, by decide⟩

end RequestLog
end Api
end HelmSsh
