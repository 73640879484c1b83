/-
# The operations that others refer to

Sessions and groups are what the rest of a workspace refers to.  A new one adds an id, an
update keeps the ids, and a deletion takes along what refers to the deleted part: the
tunnels and the API authorization of a session (`deleteSession_ok`), and of a group its
place as a parent, as the group of sessions and as a folded section (`deleteGroup_ok`).
A known host is one per host and port (`upsertKnownHost_ok`).
-/

import HelmSsh.Vault.Integrity

namespace HelmSsh
namespace Vault

open Config

variable {env : Env} {issued : List String} {data data' : VaultData}

/-! ### Sessions -/

theorem Consistent.modifySession {p : SessionConfig → Bool} {f : SessionConfig → SessionConfig}
    {sessions : List SessionConfig} (h : Consistent issued data)
    (hmodify : FirstMatch.modify p f data.sessions = some sessions)
    (hid : ∀ session, (f session).id = session.id)
    (hname : ∀ session, (f session).name = session.name)
    (hgroup : ∀ session, (f session).groupId = session.groupId) :
    Consistent issued { data with sessions := sessions } := by
  have hids := FirstMatch.map_modify (g := SessionConfig.id) (fun s _ => hid s) hmodify
  have hnames := FirstMatch.map_modify (g := SessionConfig.name) (fun s _ => hname s) hmodify
  refine
    { h with
      sessions := ⟨fun session hsession => ?_, hnames ▸ h.sessions.names⟩
      tunnels := hids ▸ h.tunnels
      api := hids ▸ h.api
      sessionIds := hids ▸ h.sessionIds
      issuedIds := fun session hsession => ?_ }
  · rcases FirstMatch.mem_modify hmodify hsession with hold | ⟨old, hold, -, rfl⟩
    · exact h.sessions.groups session hold
    · rw [hgroup old]
      exact h.sessions.groups old hold
  · rcases FirstMatch.mem_modify hmodify hsession with hold | ⟨old, hold, -, rfl⟩
    · exact h.issuedIds session hold
    · rw [hid old]
      exact h.issuedIds old hold

/-- An update that leaves id, name and group alone keeps the workspace consistent. -/
theorem updateSessionById_ok {sessionId : String} {f : SessionConfig → SessionConfig}
    (h : Consistent issued data) (hok : updateSessionById sessionId f data = .ok data')
    (hid : ∀ session, (f session).id = session.id)
    (hname : ∀ session, (f session).name = session.name)
    (hgroup : ∀ session, (f session).groupId = session.groupId) : Consistent issued data' := by
  rw [updateSessionById] at hok
  split at hok
  · rename_i sessions hmodify
    obtain rfl := Except.ok.inj hok
    exact h.modifySession hmodify hid hname hgroup
  · cases hok

/-- `create_session` keeps the workspace consistent, its new id being issued. -/
theorem createSession_ok {input : SessionInput} (h : Consistent issued data)
    (hfresh : env.newId ∉ issued) (hok : createSession env input data = .ok data') :
    Consistent (env.newId :: issued) data' := by
  obtain ⟨_, hvalid, hok⟩ := bind_ok hok
  obtain rfl := Except.ok.inj hok
  obtain ⟨hgroup, hname⟩ := validateSessionInput_ok hvalid
  have hold : ∀ id ∈ data.sessions.map SessionConfig.id,
      id ∈ (data.sessions ++ [SessionConfig.new env.now env.newId input]).map SessionConfig.id := by
    intro id hid
    rw [List.map_append]
    exact List.mem_append_left _ hid
  refine
    { h with
      sessions := ⟨fun session hsession => ?_, ?_⟩
      tunnels := fun tunnel htunnel => hold _ (h.tunnels tunnel htunnel)
      api := { h.api with known := fun id hid => hold id (h.api.known id hid) }
      sessionIds := ?_
      issuedIds := fun session hsession => ?_ }
  · rcases List.mem_append.mp hsession with hsession | hnew
    · exact h.sessions.groups session hsession
    · obtain rfl := List.mem_singleton.mp hnew
      exact hgroup
  · rw [List.map_append, List.nodup_append]
    refine ⟨h.sessions.names, List.nodup_singleton _, fun name hmem name' hnew heq => ?_⟩
    obtain ⟨session, hsession, rfl⟩ := List.mem_map.mp hmem
    obtain rfl := List.mem_singleton.mp hnew
    exact hname session hsession (Option.some_ne_none _) heq
  · rw [List.map_append, List.nodup_append]
    refine ⟨h.sessionIds, List.nodup_singleton _, fun id hmem id' hnew heq => ?_⟩
    obtain ⟨session, hsession, rfl⟩ := List.mem_map.mp hmem
    obtain rfl := List.mem_singleton.mp hnew
    have hissued := h.issuedIds session hsession
    rw [heq] at hissued
    exact hfresh hissued
  · rcases List.mem_append.mp hsession with hsession | hnew
    · exact List.mem_cons_of_mem _ (h.issuedIds session hsession)
    · obtain rfl := List.mem_singleton.mp hnew
      exact List.mem_cons_self

/-- `update_session` keeps the workspace consistent. -/
theorem updateSession_ok {sessionId : String} {input : SessionInput} (h : Consistent issued data)
    (hok : updateSession env sessionId input data = .ok data') : Consistent issued data' := by
  obtain ⟨_, hvalid, hok⟩ := bind_ok hok
  obtain ⟨hgroup, hname⟩ := validateSessionInput_ok hvalid
  rw [updateSessionById] at hok
  split at hok
  · rename_i sessions hmodify
    obtain rfl := Except.ok.inj hok
    have hids : sessions.map SessionConfig.id = data.sessions.map SessionConfig.id := by
      refine FirstMatch.map_modify ?_ hmodify
      exact fun _ _ => rfl
    have hnames : (sessions.map SessionConfig.name).Nodup := by
      refine FirstMatch.nodup_map_modify h.sessionIds h.sessions.names ?_ hmodify
      intro session hsession hother _
      exact hname session hsession fun heq => hother (Option.some.inj heq)
    refine
      { h with
        sessions := ⟨fun session hsession => ?_, hnames⟩
        tunnels := hids ▸ h.tunnels
        api := hids ▸ h.api
        sessionIds := hids ▸ h.sessionIds
        issuedIds := fun session hsession => ?_ }
    · rcases FirstMatch.mem_modify hmodify hsession with hold | ⟨old, _, _, rfl⟩
      · exact h.sessions.groups session hold
      · exact hgroup
    · rcases FirstMatch.mem_modify hmodify hsession with hold | ⟨old, hold, _, rfl⟩
      · exact h.issuedIds session hold
      · exact h.issuedIds old hold
  · cases hok

/-- Without a session, the API settings are those of the others. -/
theorem forgetApiSession_ok {sessionId : String} {sessions : List SessionConfig}
    {settings : AppSettings} (h : ApiOk (sessions.map SessionConfig.id) settings) :
    ApiOk ((sessions.filter fun session => session.id ≠ sessionId).map SessionConfig.id)
      (forgetApiSession sessionId (sessions.filter fun session => session.id ≠ sessionId)
        settings) := by
  have hleft : ∀ id ∈ sessions.map SessionConfig.id, id ≠ sessionId →
      id ∈ (sessions.filter fun session => session.id ≠ sessionId).map SessionConfig.id := by
    intro id hid hne
    obtain ⟨session, hsession, rfl⟩ := List.mem_map.mp hid
    exact List.mem_map_of_mem (List.mem_filter.mpr ⟨hsession, decide_eq_true hne⟩)
  have hstart : ∀ ids : List String, (settings.aiApiAutoStart && !ids.isEmpty) = true →
      ids ≠ [] ∧ ∃ port, settings.aiApiPort = some port ∧ 1024 ≤ port := by
    intro ids hauto
    obtain ⟨hauto, hne⟩ := Bool.and_eq_true_iff.mp hauto
    refine ⟨fun hnil => ?_, (h.autoStart hauto).2⟩
    rw [hnil] at hne
    cases hne
  rw [forgetApiSession]
  split_ifs with hold
  · refine ⟨?_, ?_, ?_, rfl, hstart _⟩
    · refine List.Nodup.sublist List.filter_sublist ?_
      cases settings.aiApiSessionId with
      | none => exact List.nodup_nil
      | some id => exact List.nodup_singleton id
    · refine (List.length_filter_le _ _).trans ?_
      cases settings.aiApiSessionId with
      | none => exact Nat.zero_le 20
      | some id => exact Nat.le_of_ble_eq_true rfl
    · intro id hid
      exact of_decide_eq_true (List.mem_filter.mp hid).2
  · refine ⟨h.distinct.sublist List.filter_sublist, ?_, ?_, rfl, hstart _⟩
    · exact (List.length_filter_le _ _).trans h.count
    · intro id hid
      obtain ⟨hmem, hne⟩ := List.mem_filter.mp hid
      exact hleft id (h.known id hmem) (of_decide_eq_true hne)

/-- `delete_session` keeps the workspace consistent. -/
theorem deleteSession_ok {sessionId : String} (h : Consistent issued data)
    (hok : deleteSession sessionId data = .ok data') : Consistent issued data' := by
  obtain ⟨_, _, hok⟩ := bind_ok hok
  obtain rfl := Except.ok.inj hok
  have hsub : (data.sessions.filter fun session => session.id ≠ sessionId).Sublist data.sessions :=
    List.filter_sublist
  refine
    { h with
      sessions :=
        ⟨fun session hsession => h.sessions.groups session (hsub.mem hsession),
          h.sessions.names.sublist (hsub.map _)⟩
      tunnels := fun tunnel htunnel => ?_
      api := forgetApiSession_ok h.api
      sessionIds := h.sessionIds.sublist (hsub.map _)
      issuedIds := fun session hsession => h.issuedIds session (hsub.mem hsession) }
  obtain ⟨htunnel, hne⟩ := List.mem_filter.mp htunnel
  obtain ⟨session, hsession, heq⟩ := List.mem_map.mp (h.tunnels tunnel htunnel)
  refine List.mem_map.mpr ⟨session, List.mem_filter.mpr ⟨hsession, ?_⟩, heq⟩
  rw [heq]
  exact hne

/-- A known host takes the place of the one with its host and port. -/
theorem upsertKnownHost_ok {entry : KnownHostEntry} {knownHosts : List KnownHostEntry}
    (h : KnownHostsOk knownHosts) : KnownHostsOk (upsertKnownHost entry knownHosts) := by
  rw [upsertKnownHost]
  cases hmodify : FirstMatch.modify
    (fun known => known.host = entry.host && known.port = entry.port)
      (fun _ => entry) knownHosts with
  | some changed =>
    have hkeys : changed.map (fun known => (known.host, known.port)) =
        knownHosts.map fun known => (known.host, known.port) := by
      refine FirstMatch.map_modify (fun known hp => ?_) hmodify
      obtain ⟨hhost, hport⟩ := Bool.and_eq_true_iff.mp hp
      rw [of_decide_eq_true hhost, of_decide_eq_true hport]
    rw [Option.getD_some, KnownHostsOk, hkeys]
    exact h
  | none =>
    rw [Option.getD_none, KnownHostsOk, List.map_append, List.nodup_append]
    refine ⟨h, List.nodup_singleton _, fun key hkey key' hnew heq => ?_⟩
    obtain ⟨known, hknown, rfl⟩ := List.mem_map.mp hkey
    obtain rfl := List.mem_singleton.mp hnew
    have hdiffers := FirstMatch.modify_eq_none hmodify known hknown
    obtain ⟨hhost, hport⟩ := Prod.mk.inj heq
    rw [hhost, hport, decide_eq_true rfl, decide_eq_true rfl] at hdiffers
    cases hdiffers

/-- `trust_host_key` keeps the workspace consistent. -/
theorem trustHostKey_ok {sessionId host : String} {port : UInt16} {algorithm fingerprint : String}
    (h : Consistent issued data)
    (hok : trustHostKey env sessionId host port algorithm fingerprint data = .ok data') :
    Consistent issued data' := by
  rw [trustHostKey] at hok
  split at hok
  · cases hok
  · obtain ⟨_, _, hok⟩ := bind_ok hok
    obtain rfl := Except.ok.inj hok
    cases hmodify : FirstMatch.modify (fun session : SessionConfig => session.id = sessionId)
        (fun session => { session with
          ssh := { session.ssh with hostKeyFingerprint := some fingerprint } })
        data.sessions with
    | none => exact { h with knownHosts := upsertKnownHost_ok h.knownHosts }
    | some sessions =>
      have hset := h.modifySession hmodify (fun _ => rfl) (fun _ => rfl) (fun _ => rfl)
      exact { hset with knownHosts := upsertKnownHost_ok h.knownHosts }

/-! ### Groups -/

/-- `create_group` keeps the workspace consistent. -/
theorem createGroup_ok {input : GroupInput} (h : Consistent issued data)
    (hok : createGroup env input data = .ok data') : Consistent issued data' := by
  obtain ⟨_, hvalid, hok⟩ := bind_ok hok
  obtain rfl := Except.ok.inj hok
  have hparent := validateGroupInput_ok hvalid
  have hold : ∀ id ∈ data.groups.map SessionGroup.id,
      id ∈ (data.groups ++ [SessionGroup.new env.now env.newId input
        (UInt32.ofNat data.groups.length)]).map SessionGroup.id := by
    intro id hid
    rw [List.map_append]
    exact List.mem_append_left _ hid
  refine
    { h with
      groups := fun group hgroup parentId hmem => ?_
      sessions :=
        { h.sessions with
          groups := fun session hsession groupId hmem =>
            hold groupId (h.sessions.groups session hsession groupId hmem) }
      sections :=
        { h.sections with known := fun id hid => (h.sections.known id hid).imp_right (hold id) } }
  rcases List.mem_append.mp hgroup with hgroup | hnew
  · exact hold parentId (h.groups group hgroup parentId hmem)
  · obtain rfl := List.mem_singleton.mp hnew
    exact hold parentId (hparent parentId hmem)

/-- `update_group` keeps the workspace consistent. -/
theorem updateGroup_ok {groupId : String} {input : GroupInput} (h : Consistent issued data)
    (hok : updateGroup env groupId input data = .ok data') : Consistent issued data' := by
  obtain ⟨_, hvalid, hok⟩ := bind_ok hok
  have hparent := validateGroupInput_ok hvalid
  split at hok
  · rename_i groups hmodify
    obtain rfl := Except.ok.inj hok
    have hids : groups.map SessionGroup.id = data.groups.map SessionGroup.id := by
      refine FirstMatch.map_modify ?_ hmodify
      exact fun _ _ => rfl
    refine
      { h with
        groups := fun group hgroup parentId hmem => ?_
        sessions := hids ▸ h.sessions
        sections := hids ▸ h.sections }
    rw [hids]
    rcases FirstMatch.mem_modify hmodify hgroup with hold | ⟨old, _, _, rfl⟩
    · exact h.groups group hold parentId hmem
    · exact hparent parentId hmem
  · cases hok

theorem defaultGroupId_mem {groupId : String} (h : data.defaultGroupId = some groupId) :
    groupId ∈ data.groups.map SessionGroup.id := by
  obtain ⟨group, hgroup, rfl⟩ := Option.map_eq_some_iff.mp h
  rcases Option.or_eq_some_iff.mp hgroup with hfirst | ⟨_, hhead⟩
  · exact List.mem_map_of_mem (List.mem_of_find?_eq_some hfirst)
  · exact List.mem_map_of_mem (List.mem_of_mem_head? hhead)

theorem map_map_keep {α β : Type*} {f : α → α} {g : α → β} (hg : ∀ a, g (f a) = g a)
    (as : List α) : (as.map f).map g = as.map g := by
  rw [List.map_map]
  exact List.map_congr_left fun a _ => hg a

/-- `delete_group` keeps the workspace consistent: what was in the group, or below it, is
no longer. -/
theorem deleteGroup_ok {groupId : String} (h : Consistent issued data)
    (hok : deleteGroup groupId data = .ok data') : Consistent issued data' := by
  obtain ⟨_, hdefault, hok⟩ := bind_ok hok
  obtain ⟨_, _, hok⟩ := bind_ok hok
  obtain rfl := Except.ok.inj hok
  have hids : ((data.groups.filter fun group => group.id ≠ groupId).map fun group =>
        if group.parentId = some groupId then { group with parentId := none } else group).map
          SessionGroup.id = (data.groups.filter fun group => group.id ≠ groupId).map
            SessionGroup.id := by
    refine map_map_keep (fun group => ?_) _
    split <;> rfl
  have hleft : ∀ id ∈ data.groups.map SessionGroup.id, id ≠ groupId →
      id ∈ (data.groups.filter fun group => group.id ≠ groupId).map SessionGroup.id := by
    intro id hid hne
    obtain ⟨group, hgroup, rfl⟩ := List.mem_map.mp hid
    exact List.mem_map_of_mem (List.mem_filter.mpr ⟨hgroup, decide_eq_true hne⟩)
  have hsessionIds : (data.sessions.map fun session =>
        if session.groupId = some groupId then { session with groupId := data.defaultGroupId }
        else session).map SessionConfig.id = data.sessions.map SessionConfig.id := by
    refine map_map_keep (fun session => ?_) _
    split <;> rfl
  have hnames : (data.sessions.map fun session =>
        if session.groupId = some groupId then { session with groupId := data.defaultGroupId }
        else session).map SessionConfig.name = data.sessions.map SessionConfig.name := by
    refine map_map_keep (fun session => ?_) _
    split <;> rfl
  refine
    { knownHosts := h.knownHosts
      quickCommands := h.quickCommands
      tunnels := hsessionIds ▸ h.tunnels
      api := (hsessionIds ▸ h.api).congr rfl rfl rfl rfl
      sessionIds := hsessionIds ▸ h.sessionIds
      groups := ?_, sessions := ⟨?_, hnames ▸ h.sessions.names⟩
      sections := ⟨h.sections.distinct.sublist List.filter_sublist, ?_⟩
      issuedIds := ?_ }
  · intro group hgroup parentId hmem
    rw [hids]
    obtain ⟨old, hold, rfl⟩ := List.mem_map.mp hgroup
    split_ifs at hmem with hchild
    · cases hmem
    · have hexists := h.groups old (List.mem_filter.mp hold).1 parentId hmem
      exact hleft parentId hexists fun heq => hchild (heq ▸ hmem)
  · intro session hsession id hmem
    rw [hids]
    obtain ⟨old, hold, rfl⟩ := List.mem_map.mp hsession
    split_ifs at hmem with hmoved
    · refine hleft id (defaultGroupId_mem hmem) fun heq => ?_
      refine refuse_ok hdefault (decide_eq_true ?_)
      rw [← heq]
      exact hmem
    · exact hleft id (h.sessions.groups old hold id hmem) fun heq => hmoved (heq ▸ hmem)
  · intro id hid
    rw [hids]
    obtain ⟨hmem, hne⟩ := List.mem_filter.mp hid
    refine (h.sections.known id hmem).imp_right fun hexists => ?_
    exact hleft id hexists (of_decide_eq_true hne)
  · intro session hsession
    obtain ⟨old, hold, rfl⟩ := List.mem_map.mp hsession
    have hid := h.issuedIds old hold
    split <;> exact hid

end Vault
end HelmSsh
