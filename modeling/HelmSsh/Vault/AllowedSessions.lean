/-
# The sessions that the configuration authorizes

`configured_allowed_sessions` and `normalize_allowed_session_ids` of `src-tauri/src/commands/
api_server_cmd.rs`: which sessions the AI API may use, as the settings have it.

* `normalizeAllowedSessionIds_eq` — a list that is `Normal` is taken as it is;
* `configuredIds_perform` — after `settings_ai_api_update` the authorized sessions are those that
  were asked for;
* `exists_of_length_names` — when every id has a name, every id is that of a session;
* `sameAllowed_perform` — an operation that is not about them leaves them as they are.
-/

import HelmSsh.Vault.Normalized
import HelmSsh.Vault.Workspace
import Mathlib.Data.List.DropRight

namespace HelmSsh
namespace Vault

open Config

variable {env : Env} {data data' : VaultData}

/-! ### The functions -/

/-- `MAX_ALLOWED_API_SESSIONS`. -/
def maxAllowedApiSessions : ℕ := 20

/-- The loop of `normalize_allowed_session_ids`, with the ids that it has taken. -/
def takeSessionIds (taken : List String) : List String → List String
  | [] => taken
  | id :: rest =>
    if Text.trim id = "" ∨ Text.trim id ∈ taken then takeSessionIds taken rest
    else if taken.length + 1 ≥ maxAllowedApiSessions then taken ++ [Text.trim id]
    else takeSessionIds (taken ++ [Text.trim id]) rest

/-- `normalize_allowed_session_ids`. -/
def normalizeAllowedSessionIds (ids : List String) (id : Option String) : List String :=
  takeSessionIds [] (ids ++ id.toList)

/-- The ids that the settings give. -/
def requestedIds (settings : AppSettings) : List String :=
  normalizeAllowedSessionIds settings.aiApiSessionIds settings.aiApiSessionId

/-- The name of a session as the API shows it. -/
def sessionLabel (session : SessionConfig) : String :=
  s!"{session.name} ({session.host})"

/-- The ids of `configured_allowed_sessions`: those that the settings give and that exist. -/
def configuredIds (data : VaultData) : List String :=
  (requestedIds data.settings).filter fun id => id ∈ data.sessions.map SessionConfig.id

/-- `configured_allowed_sessions`.  The map of the sessions has the last one of an id. -/
def configuredAllowedSessions (data : VaultData) : List String × List (String × String) :=
  (configuredIds data, (configuredIds data).filterMap fun id =>
    (data.sessions.reverse.find? fun session => session.id = id).map fun session =>
      (id, sessionLabel session))

/-- `allowed_session_names_for_ids`. -/
def allowedSessionNamesForIds (data : VaultData) (ids : List String) : List (String × String) :=
  ids.filterMap fun id =>
    (data.sessions.find? fun session => session.id = id).map fun session =>
      (id, sessionLabel session)

/-! ### Normal lists -/

/-- The ids are trimmed and not blank, different, and not too many. -/
structure Normal (ids : List String) : Prop where
  trimmed : ∀ id ∈ ids, Text.trim id = id ∧ id ≠ ""
  distinct : ids.Nodup
  count : ids.length ≤ maxAllowedApiSessions

/-- A prefix of a list of which nothing is dropped is such a list. -/
theorem dropWhile_of_prefix {α : Type} {p : α → Bool} {l l' : List α} (hbefore : l' <+: l)
    (h : l.dropWhile p = l) : l'.dropWhile p = l' := by
  obtain ⟨rest, rfl⟩ := hbefore
  cases l' with
  | nil => rfl
  | cons a l' =>
    have hfirst : ¬p a = true := List.dropWhile_eq_self_iff.mp h (Nat.succ_pos _)
    rw [List.dropWhile_cons, if_neg hfirst]

theorem trim_trim (s : String) : Text.trim (Text.trim s) = Text.trim s := by
  let front := s.toList.dropWhile Text.isWhitespace
  have hfront : front.dropWhile Text.isWhitespace = front := List.dropWhile_idempotent _ _
  have hdrop : (front.rdropWhile Text.isWhitespace).dropWhile Text.isWhitespace =
      front.rdropWhile Text.isWhitespace :=
    dropWhile_of_prefix (List.rdropWhile_prefix _ _) hfront
  show String.ofList (((String.ofList (front.rdropWhile Text.isWhitespace)).toList.dropWhile
    Text.isWhitespace).rdropWhile Text.isWhitespace) = _
  rw [String.toList_ofList, hdrop, List.rdropWhile_idempotent]
  rfl

theorem takeSessionIds_normal {taken ids : List String} (h : Normal taken)
    (hroom : taken.length < maxAllowedApiSessions) : Normal (takeSessionIds taken ids) := by
  induction ids generalizing taken with
  | nil => exact h
  | cons id rest ih =>
    rw [takeSessionIds]
    split_ifs with hskip hfull
    · exact ih h hroom
    all_goals
      obtain ⟨hblank, hnew⟩ := not_or.mp hskip
      have hnext : Normal (taken ++ [Text.trim id]) := by
        refine ⟨fun v hv => ?_, ?_, ?_⟩
        · rcases List.mem_append.mp hv with hold | hlast
          · exact h.trimmed v hold
          · obtain rfl := List.mem_singleton.mp hlast
            exact ⟨trim_trim id, hblank⟩
        · rw [List.nodup_append]
          refine ⟨h.distinct, List.nodup_singleton _, fun a ha b hb heq => ?_⟩
          obtain rfl := List.mem_singleton.mp hb
          exact hnew (heq ▸ ha)
        · rw [List.length_append, List.length_singleton]
          exact hroom
    · exact hnext
    · refine ih hnext ?_
      rw [List.length_append, List.length_singleton]
      omega

theorem normal_normalizeAllowedSessionIds (ids : List String) (id : Option String) :
    Normal (normalizeAllowedSessionIds ids id) :=
  takeSessionIds_normal ⟨nofun, List.nodup_nil, Nat.zero_le _⟩ (by decide)

/-- The loop takes normal ids as they are, and then nothing that it has taken. -/
theorem takeSessionIds_eq {taken ids extra : List String} (h : Normal (taken ++ ids))
    (hextra : ∀ id ∈ extra, id ∈ taken ++ ids) (hroom : taken.length < maxAllowedApiSessions) :
    takeSessionIds taken (ids ++ extra) = taken ++ ids := by
  induction ids generalizing taken with
  | nil =>
    rw [List.nil_append, List.append_nil] at *
    induction extra with
    | nil => rfl
    | cons id rest ih =>
      have hmem := hextra id List.mem_cons_self
      rw [takeSessionIds, (h.trimmed id hmem).1, if_pos (.inr hmem)]
      exact ih fun id hid => hextra id (List.mem_cons_of_mem _ hid)
  | cons id rest ih =>
    obtain ⟨htrim, hblank⟩ := h.trimmed id (List.mem_append_right _ List.mem_cons_self)
    have hnew : id ∉ taken := by
      intro hmem
      exact (List.nodup_append.mp h.distinct).2.2 id hmem id List.mem_cons_self rfl
    have hskip : ¬(id = "" ∨ id ∈ taken) := not_or.mpr ⟨hblank, hnew⟩
    have hsplit : taken ++ id :: rest = taken ++ [id] ++ rest := List.append_cons ..
    rw [List.cons_append, takeSessionIds, htrim, if_neg hskip]
    rw [hsplit] at h hextra ⊢
    split_ifs with hfull
    · have hcount := h.count
      rw [List.length_append, List.length_append, List.length_singleton] at hcount
      have hnil : rest = [] := List.eq_nil_of_length_eq_zero (by omega)
      rw [hnil, List.append_nil]
    · refine ih h hextra ?_
      rw [List.length_append, List.length_singleton]
      omega

/-- **A normal list is taken as it is**, with its first id as the one of older builds. -/
theorem normalizeAllowedSessionIds_eq {ids : List String} (h : Normal ids) :
    normalizeAllowedSessionIds ids ids.head? = ids := by
  refine @takeSessionIds_eq [] _ _ h (fun id hid => ?_) (by decide)
  rw [Option.mem_toList] at hid
  exact List.mem_of_mem_head? hid

/-! ### The update of the settings -/

/-- The ids that `settings_ai_api_update` accepts are normal. -/
theorem acceptSessionIds_normal {accepted requested ids : List String}
    (htrimmed : ∀ id ∈ accepted, Text.trim id = id ∧ id ≠ "")
    (h : acceptSessionIds data accepted requested = .ok ids) :
    ∀ id ∈ ids, Text.trim id = id ∧ id ≠ "" := by
  induction requested generalizing accepted with
  | nil =>
    obtain rfl := Except.ok.inj h
    exact htrimmed
  | cons id rest ih =>
    rw [acceptSessionIds] at h
    split_ifs at h with hskip
    · exact ih htrimmed h
    · obtain ⟨_, _, h⟩ := bind_ok h
      obtain ⟨_, _, h⟩ := bind_ok h
      refine ih (fun v hv => ?_) h
      rcases List.mem_append.mp hv with hold | hlast
      · exact htrimmed v hold
      · obtain rfl := List.mem_singleton.mp hlast
        exact ⟨trim_trim id, (not_or.mp hskip).1⟩

theorem acceptSessionIds_eq {accepted requested ids : List String}
    (hnormal : Normal (accepted ++ requested))
    (h : acceptSessionIds data accepted requested = .ok ids) : ids = accepted ++ requested := by
  induction requested generalizing accepted with
  | nil =>
    obtain rfl := Except.ok.inj h
    rw [List.append_nil]
  | cons id rest ih =>
    obtain ⟨htrim, hblank⟩ := hnormal.trimmed id (List.mem_append_right _ List.mem_cons_self)
    have hnew : id ∉ accepted := by
      intro hmem
      exact (List.nodup_append.mp hnormal.distinct).2.2 id hmem id List.mem_cons_self rfl
    rw [acceptSessionIds, htrim, if_neg (not_or.mpr ⟨hblank, hnew⟩)] at h
    obtain ⟨_, _, h⟩ := bind_ok h
    obtain ⟨_, _, h⟩ := bind_ok h
    rw [List.append_cons] at hnormal ⊢
    exact ih hnormal h

/-- **After `settings_ai_api_update` the authorized sessions are those that it stored**, and these
are the ones that were asked for, when these are normal. -/
theorem configuredIds_settingsAiApiUpdate {settings : AiApiSettingsUpdate}
    (hok : settingsAiApiUpdate settings data = .ok data') :
    configuredIds data' = requestedIds data'.settings ∧
      (Normal settings.sessionIds → requestedIds data'.settings = settings.sessionIds) := by
  obtain ⟨_, _, hok⟩ := bind_ok hok
  obtain ⟨sessionIds, haccept, hok⟩ := bind_ok hok
  obtain ⟨_, _, hok⟩ := bind_ok hok
  obtain ⟨_, _, hok⟩ := bind_ok hok
  obtain rfl := Except.ok.inj hok
  obtain ⟨hdistinct, hcount, hknown⟩ :=
    acceptSessionIds_ok List.nodup_nil (Nat.zero_le _) (fun _ h => absurd h List.not_mem_nil)
      haccept
  have htrimmed := acceptSessionIds_normal (fun _ h => absurd h List.not_mem_nil) haccept
  have hnormal : Normal sessionIds := ⟨htrimmed, hdistinct, hcount⟩
  have hrequested : normalizeAllowedSessionIds sessionIds sessionIds.head? = sessionIds :=
    normalizeAllowedSessionIds_eq hnormal
  refine ⟨?_, fun hasked => ?_⟩
  · show (normalizeAllowedSessionIds sessionIds sessionIds.head?).filter _ = _
    refine List.filter_eq_self.mpr fun id hid => ?_
    rw [hrequested] at hid
    exact decide_eq_true (hknown id hid)
  · have hsame := @acceptSessionIds_eq data [] _ _ hasked haccept
    show normalizeAllowedSessionIds sessionIds sessionIds.head? = _
    rw [hrequested, hsame, List.nil_append]

/-! ### The other operations -/

/-- The operation is one of the two that change the authorized sessions. -/
def VaultOp.Authorizes : VaultOp → Prop
  | .settingsAiApiUpdate _ | .deleteSession _ => True
  | _ => False

instance (op : VaultOp) : Decidable op.Authorizes := by
  cases op <;> unfold VaultOp.Authorizes <;> infer_instance

/-- An operation that makes a session gives it an id that the settings do not know. -/
def VaultOp.FreshId (env : Env) (data : VaultData) : VaultOp → Prop
  | .createSession _ => env.newId ∉ requestedIds data.settings
  | _ => True

instance (env : Env) (data : VaultData) (op : VaultOp) : Decidable (op.FreshId env data) := by
  cases op <;> unfold VaultOp.FreshId <;> infer_instance

/-- The API settings give the same ids, and of these the same exist. -/
structure SameAllowed (data data' : VaultData) : Prop where
  requested : requestedIds data'.settings = requestedIds data.settings
  exist : ∀ id ∈ requestedIds data.settings,
    id ∈ data'.sessions.map SessionConfig.id ↔ id ∈ data.sessions.map SessionConfig.id

/-- The authorized sessions are the same, and of any that the settings give. -/
theorem SameAllowed.filter_eq (h : SameAllowed data data') {ids : List String}
    (hsub : ids ⊆ requestedIds data.settings) :
    (ids.filter fun id => id ∈ data'.sessions.map SessionConfig.id) =
      ids.filter fun id => id ∈ data.sessions.map SessionConfig.id := by
  refine List.filter_congr fun id hid => ?_
  rw [decide_eq_decide]
  exact h.exist id (hsub hid)

theorem SameAllowed.configuredIds_eq (h : SameAllowed data data') :
    configuredIds data' = configuredIds data := by
  rw [configuredIds, h.requested]
  exact h.filter_eq fun _ hid => hid

/-- The same settings, and sessions with the same ids. -/
theorem sameAllowed_of_ids (hids : data'.settings.aiApiSessionIds = data.settings.aiApiSessionIds)
    (hid : data'.settings.aiApiSessionId = data.settings.aiApiSessionId)
    (hsessions : data'.sessions.map SessionConfig.id = data.sessions.map SessionConfig.id) :
    SameAllowed data data' := by
  refine ⟨?_, fun id _ => ?_⟩
  · rw [requestedIds, hids, hid]
    rfl
  · rw [hsessions]

theorem sessionIds_updateSessionById {sessionId : String} {f : SessionConfig → SessionConfig}
    (hok : updateSessionById sessionId f data = .ok data')
    (hf : ∀ session, (f session).id = session.id) :
    data'.sessions.map SessionConfig.id = data.sessions.map SessionConfig.id := by
  rw [updateSessionById] at hok
  split at hok
  · rename_i sessions hmodify
    obtain rfl := Except.ok.inj hok
    exact FirstMatch.map_modify (fun session _ => hf session) hmodify
  · cases hok

theorem sessionIds_updateTunnelById {tunnelId : String} {f : TunnelConfig → TunnelConfig}
    (hok : updateTunnelById tunnelId f data = .ok data') : data'.sessions = data.sessions := by
  rw [updateTunnelById] at hok
  split at hok
  · obtain rfl := Except.ok.inj hok
    rfl
  · cases hok

theorem sessionIds_trustHostKey {sessionId host algorithm fingerprint : String} {port : UInt16}
    (hok : trustHostKey env sessionId host port algorithm fingerprint data = .ok data') :
    data'.sessions.map SessionConfig.id = data.sessions.map SessionConfig.id := by
  rw [trustHostKey] at hok
  split at hok
  · cases hok
  · obtain ⟨_, _, hok⟩ := bind_ok hok
    obtain rfl := Except.ok.inj hok
    cases hmodify : FirstMatch.modify (fun session : SessionConfig => session.id = sessionId)
        (fun session => { session with
          ssh := { session.ssh with hostKeyFingerprint := some fingerprint } })
        data.sessions with
    | none => rfl
    | some sessions =>
      refine FirstMatch.map_modify ?_ hmodify
      exact fun _ _ => rfl

/-- **An operation that does not authorize** changes nothing of what is authorized, when the id of a
new session is a new one. -/
theorem sameAllowed_update {op : VaultOp} (hnot : ¬op.Authorizes) (hfresh : op.FreshId env data)
    (hok : op.update env data = .ok data') : SameAllowed data data' := by
  cases op with
  | settingsAiApiUpdate => exact absurd trivial hnot
  | deleteSession => exact absurd trivial hnot
  | createSession =>
    obtain ⟨_, _, hok⟩ := bind_ok hok
    obtain rfl := Except.ok.inj hok
    refine ⟨rfl, fun id hid => ?_⟩
    have hne : id ≠ env.newId := fun heq => hfresh (heq ▸ hid)
    rw [List.map_append, List.mem_append]
    exact or_iff_left fun hmem => hne (List.mem_singleton.mp hmem)
  | trustHostKey =>
    have hsame := sameApi_trustHostKey hok
    exact sameAllowed_of_ids hsame.sessionIds hsame.sessionId (sessionIds_trustHostKey hok)
  | updateSession =>
    obtain ⟨_, _, hok⟩ := bind_ok hok
    have hsame := sameApi_updateSessionById hok
    exact sameAllowed_of_ids hsame.sessionIds hsame.sessionId
      (sessionIds_updateSessionById hok fun _ => rfl)
  | setSessionFavorite | markSessionRecent | clearSessionRecent =>
    have hsame := sameApi_updateSessionById hok
    exact sameAllowed_of_ids hsame.sessionIds hsame.sessionId
      (sessionIds_updateSessionById hok fun _ => rfl)
  | setTunnelEnabled =>
    have hsame := sameApi_updateTunnelById hok
    exact sameAllowed_of_ids hsame.sessionIds hsame.sessionId
      (congrArg (List.map _) (sessionIds_updateTunnelById hok))
  | updateTunnel =>
    obtain ⟨_, _, hok⟩ := bind_ok hok
    have hsame := sameApi_updateTunnelById hok
    exact sameAllowed_of_ids hsame.sessionIds hsame.sessionId
      (congrArg (List.map _) (sessionIds_updateTunnelById hok))
  | updateGroup =>
    obtain ⟨_, _, hok⟩ := bind_ok hok
    split at hok
    · obtain rfl := Except.ok.inj hok
      exact sameAllowed_of_ids rfl rfl rfl
    · cases hok
  | deleteGroup =>
    obtain ⟨_, _, hok⟩ := bind_ok hok
    obtain ⟨_, _, hok⟩ := bind_ok hok
    obtain rfl := Except.ok.inj hok
    refine sameAllowed_of_ids rfl rfl ?_
    rw [List.map_map]
    refine List.map_congr_left fun session _ => ?_
    rw [Function.comp_apply]
    split_ifs <;> rfl
  | replaceBackupRecords =>
    obtain rfl := Except.ok.inj hok
    exact sameAllowed_of_ids rfl rfl rfl
  | quickCommandDelete =>
    obtain ⟨_, _, hok⟩ := bind_ok hok
    obtain ⟨_, _, hok⟩ := bind_ok hok
    obtain rfl := Except.ok.inj hok
    exact sameAllowed_of_ids rfl rfl rfl
  | settingsProxyUpdate | settingsBackupUpdate | quickCommandUpsert | settingsAiApiKeyUpdate |
    settingsIgnoreUpdateVersion | connectionSectionStateUpdate | createTunnel | deleteTunnel |
    deleteBackupRecord | createGroup =>
    obtain ⟨_, _, hok⟩ := bind_ok hok
    obtain rfl := Except.ok.inj hok
    exact sameAllowed_of_ids rfl rfl rfl

theorem sameAllowed_perform {op : VaultOp} (hnot : ¬op.Authorizes) (hfresh : op.FreshId env data)
    (hok : op.perform env data = .ok data') : SameAllowed data data' := by
  obtain ⟨_, _, hok⟩ := bind_ok hok
  split_ifs at hok
  · obtain rfl := Except.ok.inj hok
    exact sameAllowed_of_ids rfl rfl rfl
  · obtain ⟨updated, hupdate, hok⟩ := bind_ok hok
    obtain rfl := Except.ok.inj hok
    have hsame := sameAllowed_update hnot hfresh hupdate
    exact ⟨hsame.requested, hsame.exist⟩

/-- What an update of the API settings stores is what is authorized afterwards. -/
theorem configuredIds_perform {settings : AiApiSettingsUpdate}
    (hok : (VaultOp.settingsAiApiUpdate settings).perform env data = .ok data') :
    configuredIds data' = requestedIds data'.settings ∧
      (Normal settings.sessionIds → requestedIds data'.settings = settings.sessionIds) := by
  obtain ⟨_, _, hok⟩ := bind_ok hok
  have hnot : ¬(VaultOp.settingsAiApiUpdate settings).isNoop data = true := Bool.false_ne_true
  rw [if_neg hnot] at hok
  obtain ⟨updated, hupdate, hok⟩ := bind_ok hok
  obtain rfl := Except.ok.inj hok
  have hstored := configuredIds_settingsAiApiUpdate hupdate
  exact hstored

/-! ### The names -/

/-- A lookup that finds something for every id finds the session of each. -/
theorem exists_of_length_names {ids : List String}
    (h : (allowedSessionNamesForIds data ids).length = ids.length) :
    ∀ id ∈ ids, id ∈ data.sessions.map SessionConfig.id := by
  rw [allowedSessionNamesForIds, List.filterMap_length_eq_length] at h
  intro id hid
  obtain ⟨session, hfind⟩ := Option.isSome_iff_exists.mp (Option.isSome_map ▸ h id hid)
  have heq : session.id = id := by
    have hmatch := List.find?_some hfind
    rwa [decide_eq_true_eq] at hmatch
  exact List.mem_map.mpr ⟨session, List.mem_of_find?_eq_some hfind, heq⟩

end Vault
end HelmSsh
