/-
# The error type

`AppError` of `src-tauri/src/errors.rs`, the one error type of the back end.
`AppResult` is `Result<_, AppError>`.
-/

import Mathlib.Tactic.Common

namespace HelmSsh

/-- What the front end needs to confirm a host key. -/
structure HostKeyVerification where
  sessionId : String
  host : String
  port : ℕ
  algorithm : String
  fingerprint : String
  expectedFingerprint : Option String
  deriving DecidableEq

/-- Every error a command or a REST handler reports. -/
inductive AppError where
  | vaultNotFound
  | vaultAlreadyExists
  | vaultLocked
  | invalidMasterPassword
  | notFound (what : String)
  | invalidInput (what : String)
  | configConflict (what : String)
  | hostKeyUntrusted (key : HostKeyVerification)
  | hostKeyChanged (key : HostKeyVerification)
  | transferNeedsOverwrite (what : String)
  | remote (what : String)
  | apiPortInUse (what : String)
  | ioError (what : String)
  | crypto (what : String)
  | serde (what : String)
  deriving DecidableEq

/-- The result of a fallible operation. -/
abbrev AppResult (β : Type*) := Except AppError β

end HelmSsh
