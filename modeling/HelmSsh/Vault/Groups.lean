/-
# The groups of a workspace

`create_group`, `update_group` and `delete_group` of `src-tauri/src/vault.rs` on the links from a
group to its parent (`parentOf`), in the runs of `workspace`.  The default group is the one of
sort order zero, and stays the one that the workspace was created with: a new group comes behind
at least one other, and the default group is never deleted (`GroupsInv`).  A new group and a
deleted one make no cycle of the parents; an update of a group checks its new parent for the group
itself only, and makes one when the parent is a group below it (`Workspace.keepsForest`).

* `GroupChange`, `groupChange_of_perform` — what an operation can do to the groups.
* `GroupsInv.forest_change_iff` — which of these changes leave a forest.
* `groups_forest_iff` — the same of all runs.
-/

import HelmSsh.Forest
import HelmSsh.Vault.Workspace

namespace HelmSsh
namespace Vault

open Config Forest

variable {env : Env} {issued : List String} {data data' : VaultData} {first : String}
  {groups : List SessionGroup}

/-- The parent of the group with the id. -/
def parentOf (groups : List SessionGroup) (id : String) : Option String :=
  (groups.find? fun group => group.id = id).bind SessionGroup.parentId

/-- **Following the parents from any group, a group without a parent is reached.** -/
def GroupForest (groups : List SessionGroup) : Prop :=
  ∀ group ∈ groups, ∃ n, ∃ root ∈ groups,
    climb (parentOf groups) n group.id = some root.id ∧ root.parentId = none

/-- What is kept of the groups: the ids, the references, the default group and the number of the
others. -/
structure GroupsInv (first : String) (issued : List String)
    (groups : List SessionGroup) : Prop where
  distinct : (groups.map SessionGroup.id).Nodup
  known : ∀ group ∈ groups, group.id ∈ issued
  parents : ∀ group ∈ groups, ∀ id ∈ group.parentId, id ∈ groups.map SessionGroup.id
  default : ∃ group ∈ groups, group.id = first ∧ group.sortOrder = 0
  others : ∀ group ∈ groups, group.sortOrder = 0 → group.id = first
  count : (groups.countP fun group => group.id ≠ first) ≤ groupCustomMaxCount

/-! ### Links to the parents -/

theorem parentOf_mem (hdistinct : (groups.map SessionGroup.id).Nodup) {group : SessionGroup}
    (hgroup : group ∈ groups) : parentOf groups group.id = group.parentId := by
  rw [parentOf, FirstMatch.find?_of_nodup hdistinct hgroup, Option.bind_some]

theorem parentOf_of_notMem {id : String} (h : id ∉ groups.map SessionGroup.id) :
    parentOf groups id = none := by
  have hnone : groups.find? (fun group => group.id = id) = none := by
    refine List.find?_eq_none.mpr fun group hgroup => ?_
    rw [decide_eq_true_iff]
    rintro rfl
    exact h (List.mem_map_of_mem hgroup)
  rw [parentOf, hnone, Option.bind_none]

theorem GroupsInv.parentOf_known (h : GroupsInv first issued groups) {id parentId : String}
    (hparent : parentOf groups id = some parentId) : parentId ∈ groups.map SessionGroup.id := by
  obtain ⟨group, hfind, hgroup⟩ := Option.bind_eq_some_iff.mp hparent
  exact h.parents group (List.mem_of_find?_eq_some hfind) parentId hgroup

theorem GroupsInv.climb_known (h : GroupsInv first issued groups) {n : ℕ} {id above : String}
    (hid : id ∈ groups.map SessionGroup.id) (hclimb : climb (parentOf groups) n id = some above) :
    above ∈ groups.map SessionGroup.id := by
  induction n generalizing id with
  | zero =>
    obtain rfl := Option.some.inj hclimb
    exact hid
  | succ n ih =>
    obtain ⟨parentId, hparent, hclimb⟩ := Option.bind_eq_some_iff.mp hclimb
    exact ih (h.parentOf_known hparent) hclimb

/-- **The groups are a forest** exactly when following the parents comes to an end from
everywhere. -/
theorem GroupsInv.forest_iff (h : GroupsInv first issued groups) :
    GroupForest groups ↔ ∀ id, Rooted (parentOf groups) id := by
  constructor
  · intro hforest id
    by_cases hid : id ∈ groups.map SessionGroup.id
    · obtain ⟨group, hgroup, rfl⟩ := List.mem_map.mp hid
      obtain ⟨n, root, hroot, hclimb, hnone⟩ := hforest group hgroup
      exact rooted_iff.mpr ⟨n, root.id, hclimb, (parentOf_mem h.distinct hroot).trans hnone⟩
    · exact .root (parentOf_of_notMem hid)
  · intro hrooted group hgroup
    obtain ⟨n, rootId, hclimb, hnone⟩ := rooted_iff.mp (hrooted group.id)
    obtain ⟨root, hroot, rfl⟩ := List.mem_map.mp
      (h.climb_known (List.mem_map_of_mem hgroup) hclimb)
    exact ⟨n, root, hroot, hclimb, (parentOf_mem h.distinct hroot).symm.trans hnone⟩

/-! ### The default group -/

/-- The default group is the one that was there first. -/
theorem GroupsInv.defaultGroupId (h : GroupsInv first issued data.groups) :
    data.defaultGroupId = some first := by
  obtain ⟨group, hgroup, -, hzero⟩ := h.default
  rw [VaultData.defaultGroupId]
  cases hfind : data.groups.find? fun group => group.sortOrder = 0 with
  | none =>
    have hno := List.find?_eq_none.mp hfind group hgroup
    exact absurd (decide_eq_true hzero) hno
  | some found =>
    have hfound := List.find?_some hfind
    rw [Option.some_or, Option.map_some,
      h.others found (List.mem_of_find?_eq_some hfind) (of_decide_eq_true hfound)]

theorem GroupsInv.customGroupCount (h : GroupsInv first issued data.groups) :
    customGroupCount data = data.groups.countP fun group => group.id ≠ first := by
  unfold Config.customGroupCount
  rw [h.defaultGroupId]
  exact List.countP_congr fun group _ => by simp

theorem GroupsInv.length_eq (h : GroupsInv first issued groups) :
    groups.length = (groups.countP fun group => group.id ≠ first) + 1 := by
  obtain ⟨group, hgroup, hid, -⟩ := h.default
  have hone : (groups.map SessionGroup.id).count first = 1 :=
    List.count_eq_one_of_mem h.distinct (hid ▸ List.mem_map_of_mem hgroup)
  rw [List.length_eq_countP_add_countP fun group : SessionGroup => group.id ≠ first]
  congr 1
  rw [← hone, List.count, List.countP_map]
  refine List.countP_congr fun group _ => ?_
  simp

/-! ### What an operation does to the groups -/

/-- The groups after `delete_group`. -/
def groupsWithout (groupId : String) (groups : List SessionGroup) : List SessionGroup :=
  (groups.filter fun group => group.id ≠ groupId).map fun group =>
    if group.parentId = some groupId then { group with parentId := none } else group

/-- **What an operation that succeeds can do to the groups.** -/
inductive GroupChange (env : Env) (data : VaultData) : VaultOp → List SessionGroup → Prop
  | kept {op : VaultOp} (h : ∀ groupId input, op ≠ .updateGroup groupId input) :
    GroupChange env data op data.groups
  | created {input : GroupInput} (hvalid : validateGroupInput data none input = .ok ()) :
    GroupChange env data (.createGroup input)
      (data.groups ++ [.new env.now env.newId input (UInt32.ofNat data.groups.length)])
  | updated {groupId : String} {input : GroupInput} {groups : List SessionGroup}
      (hvalid : validateGroupInput data (some groupId) input = .ok ())
      (hmodify : FirstMatch.modify (fun group => group.id = groupId)
        (SessionGroup.update env.now input) data.groups = some groups) :
    GroupChange env data (.updateGroup groupId input) groups
  | deleted {groupId : String} (hdefault : data.isDefaultGroupId groupId = false) :
    GroupChange env data (.deleteGroup groupId) (groupsWithout groupId data.groups)

theorem updateTunnelById_groups {tunnelId : String} {f : TunnelConfig → TunnelConfig}
    (hok : updateTunnelById tunnelId f data = .ok data') : data'.groups = data.groups := by
  rw [updateTunnelById] at hok
  split at hok
  · obtain rfl := Except.ok.inj hok
    rfl
  · cases hok

theorem updateSessionById_groups {sessionId : String} {f : SessionConfig → SessionConfig}
    (hok : updateSessionById sessionId f data = .ok data') : data'.groups = data.groups := by
  rw [updateSessionById] at hok
  split at hok
  · obtain rfl := Except.ok.inj hok
    rfl
  · cases hok

/-- The operations on other parts leave the groups alone. -/
theorem groupChange_of_update {op : VaultOp} (hok : op.update env data = .ok data') :
    GroupChange env data op data'.groups := by
  cases op with
  | createGroup input =>
    obtain ⟨_, hvalid, hok⟩ := bind_ok hok
    obtain rfl := Except.ok.inj hok
    exact .created hvalid
  | updateGroup groupId input =>
    obtain ⟨_, hvalid, hok⟩ := bind_ok hok
    split at hok
    · rename_i groups hmodify
      obtain rfl := Except.ok.inj hok
      exact .updated hvalid hmodify
    · cases hok
  | deleteGroup groupId =>
    obtain ⟨_, hdefault, hok⟩ := bind_ok hok
    obtain ⟨_, _, hok⟩ := bind_ok hok
    obtain rfl := Except.ok.inj hok
    exact .deleted (Bool.not_eq_true _ ▸ refuse_ok hdefault)
  | settingsProxyUpdate | settingsBackupUpdate | quickCommandUpsert | settingsAiApiKeyUpdate
    | settingsIgnoreUpdateVersion | connectionSectionStateUpdate | createTunnel | deleteTunnel
    | deleteBackupRecord | createSession | deleteSession =>
    obtain ⟨_, _, hok⟩ := bind_ok hok
    obtain rfl := Except.ok.inj hok
    exact .kept (by simp)
  | quickCommandDelete =>
    obtain ⟨_, _, hok⟩ := bind_ok hok
    obtain ⟨_, _, hok⟩ := bind_ok hok
    obtain rfl := Except.ok.inj hok
    exact .kept (by simp)
  | settingsAiApiUpdate =>
    obtain ⟨_, _, hok⟩ := bind_ok hok
    obtain ⟨_, _, hok⟩ := bind_ok hok
    obtain ⟨_, _, hok⟩ := bind_ok hok
    obtain ⟨_, _, hok⟩ := bind_ok hok
    obtain rfl := Except.ok.inj hok
    exact .kept (by simp)
  | replaceBackupRecords =>
    obtain rfl := Except.ok.inj hok
    exact .kept (by simp)
  | trustHostKey =>
    rw [VaultOp.update, Vault.trustHostKey] at hok
    split at hok
    · cases hok
    · obtain ⟨_, _, hok⟩ := bind_ok hok
      obtain rfl := Except.ok.inj hok
      exact .kept (by simp)
  | setTunnelEnabled =>
    rw [updateTunnelById_groups hok]
    exact .kept (by simp)
  | updateTunnel =>
    obtain ⟨_, _, hok⟩ := bind_ok hok
    rw [updateTunnelById_groups hok]
    exact .kept (by simp)
  | updateSession =>
    obtain ⟨_, _, hok⟩ := bind_ok hok
    rw [updateSessionById_groups hok]
    exact .kept (by simp)
  | setSessionFavorite | markSessionRecent | clearSessionRecent =>
    rw [updateSessionById_groups hok]
    exact .kept (by simp)

/-! ### What a change keeps -/

variable {input : GroupInput}

/-- A new group is accepted while there is room for it. -/
theorem validateGroupInput_room (h : validateGroupInput data none input = .ok ()) :
    Config.customGroupCount data < groupCustomMaxCount := by
  obtain ⟨_, _, h⟩ := bind_ok h
  obtain ⟨_, _, h⟩ := bind_ok h
  obtain ⟨_, _, h⟩ := bind_ok h
  obtain ⟨_, hroom, h⟩ := bind_ok h
  exact Nat.lt_of_not_le fun hfull => refuse_ok hroom ⟨rfl, hfull⟩

theorem GroupsInv.cons (h : GroupsInv first issued groups) (id : String) :
    GroupsInv first (id :: issued) groups :=
  { h with known := fun group hgroup => List.mem_cons_of_mem id (h.known group hgroup) }

theorem GroupsInv.fresh (h : GroupsInv first issued groups) (hfresh : env.newId ∉ issued) :
    env.newId ∉ groups.map SessionGroup.id := by
  intro hid
  obtain ⟨group, hgroup, heq⟩ := List.mem_map.mp hid
  exact hfresh (heq ▸ h.known group hgroup)

theorem mem_groupsWithout {groupId : String} {group : SessionGroup} :
    group ∈ groupsWithout groupId groups ↔ ∃ old ∈ groups, old.id ≠ groupId ∧
      (if old.parentId = some groupId then { old with parentId := none } else old) = group := by
  rw [groupsWithout, List.mem_map]
  refine exists_congr fun old => ?_
  rw [List.mem_filter, decide_eq_true_iff, and_assoc]

theorem ids_groupsWithout (groupId : String) (groups : List SessionGroup) :
    (groupsWithout groupId groups).map SessionGroup.id
      = (groups.map SessionGroup.id).filter (· ≠ groupId) := by
  rw [groupsWithout, map_map_keep (g := SessionGroup.id) (fun group => by split <;> rfl),
    List.filter_map]
  rfl

/-- A new group, of an id that is not taken, keeps the invariant. -/
theorem GroupsInv.created (h : GroupsInv first issued data.groups)
    (hfresh : env.newId ∉ issued) (hvalid : validateGroupInput data none input = .ok ()) :
    GroupsInv first (env.newId :: issued)
      (data.groups ++ [.new env.now env.newId input (UInt32.ofNat data.groups.length)]) := by
  have hnew := h.fresh hfresh
  have hparent := validateGroupInput_ok hvalid
  have hroom := validateGroupInput_room hvalid
  have hlength := h.length_eq
  rw [h.customGroupCount] at hroom
  obtain ⟨default, hdefault, hid, hzero⟩ := h.default
  refine ⟨?_, ?_, ?_, ⟨default, List.mem_append_left _ hdefault, hid, hzero⟩, ?_, ?_⟩
  · rw [List.map_append, List.map_singleton, ← List.concat_eq_append]
    exact List.Nodup.concat hnew h.distinct
  · intro group hgroup
    rcases List.mem_append.mp hgroup with hold | hnew
    · exact List.mem_cons_of_mem _ (h.known group hold)
    · obtain rfl := List.mem_singleton.mp hnew
      exact List.mem_cons_self
  · intro group hgroup id hid
    rw [List.map_append]
    rcases List.mem_append.mp hgroup with hold | hnew
    · exact List.mem_append_left _ (h.parents group hold id hid)
    · obtain rfl := List.mem_singleton.mp hnew
      exact List.mem_append_left _ (hparent id hid)
  · intro group hgroup hsort
    rcases List.mem_append.mp hgroup with hold | hnew
    · exact h.others group hold hsort
    · obtain rfl := List.mem_singleton.mp hnew
      have hsort := congrArg UInt32.toNat hsort
      have hsmall : data.groups.length < 2 ^ 32 := by
        rw [groupCustomMaxCount] at hroom
        omega
      rw [SessionGroup.new, UInt32.toNat_ofNat_of_lt' hsmall] at hsort
      change data.groups.length = 0 at hsort
      omega
  · rw [List.countP_append]
    have hone := List.countP_le_length (p := fun group : SessionGroup => group.id ≠ first)
      (l := [SessionGroup.new env.now env.newId input (UInt32.ofNat data.groups.length)])
    rw [List.length_singleton] at hone
    omega

theorem GroupsInv.updated {groupId : String} (h : GroupsInv first issued data.groups)
    (hvalid : validateGroupInput data (some groupId) input = .ok ())
    (hmodify : FirstMatch.modify (fun group => group.id = groupId)
      (SessionGroup.update env.now input) data.groups = some groups) :
    GroupsInv first issued groups := by
  have hids : groups.map SessionGroup.id = data.groups.map SessionGroup.id := by
    refine FirstMatch.map_modify ?_ hmodify
    exact fun _ _ => rfl
  have hkeys : groups.map (fun group => (group.id, group.sortOrder))
      = data.groups.map fun group => (group.id, group.sortOrder) := by
    refine FirstMatch.map_modify ?_ hmodify
    exact fun _ _ => rfl
  have hkey : ∀ group ∈ groups, ∃ old ∈ data.groups,
      old.id = group.id ∧ old.sortOrder = group.sortOrder := by
    intro group hgroup
    have hmem := List.mem_map_of_mem (f := fun group => (group.id, group.sortOrder)) hgroup
    rw [hkeys] at hmem
    obtain ⟨old, hold, heq⟩ := List.mem_map.mp hmem
    exact ⟨old, hold, congrArg Prod.fst heq, congrArg Prod.snd heq⟩
  refine ⟨hids ▸ h.distinct, ?_, ?_, ?_, ?_, ?_⟩
  · intro group hgroup
    obtain ⟨old, hold, hid, -⟩ := hkey group hgroup
    exact hid ▸ h.known old hold
  · intro group hgroup id hid
    rw [hids]
    rcases FirstMatch.mem_modify hmodify hgroup with hold | ⟨old, hold, -, rfl⟩
    · exact h.parents group hold id hid
    · exact validateGroupInput_ok hvalid id hid
  · obtain ⟨default, hdefault, hid, hzero⟩ := h.default
    have hmem := List.mem_map_of_mem (f := fun group => (group.id, group.sortOrder)) hdefault
    rw [← hkeys] at hmem
    obtain ⟨group, hgroup, heq⟩ := List.mem_map.mp hmem
    exact ⟨group, hgroup, (congrArg Prod.fst heq).trans hid, (congrArg Prod.snd heq).trans hzero⟩
  · intro group hgroup hsort
    obtain ⟨old, hold, hid, hsame⟩ := hkey group hgroup
    exact hid ▸ h.others old hold (hsame.trans hsort)
  · have hcount (groups : List SessionGroup) : (groups.countP fun group => group.id ≠ first)
        = (groups.map SessionGroup.id).countP (· ≠ first) := by
      rw [List.countP_map]
      rfl
    rw [hcount, hids, ← hcount]
    exact h.count

/-- A deletion keeps the invariant: it is never the default group. -/
theorem GroupsInv.deleted {groupId : String} (h : GroupsInv first issued groups)
    (hdefault : groupId ≠ first) : GroupsInv first issued (groupsWithout groupId groups) := by
  refine ⟨?_, ?_, ?_, ?_, ?_, ?_⟩
  · rw [ids_groupsWithout]
    exact h.distinct.filter _
  · intro group hgroup
    obtain ⟨old, hold, -, rfl⟩ := mem_groupsWithout.mp hgroup
    split_ifs
    · exact h.known old hold
    · exact h.known old hold
  · intro group hgroup id hid
    obtain ⟨old, hold, -, rfl⟩ := mem_groupsWithout.mp hgroup
    rw [ids_groupsWithout, List.mem_filter, decide_eq_true_iff]
    split_ifs at hid with hchild
    · cases hid
    · exact ⟨h.parents old hold id hid, fun heq => hchild (heq ▸ hid)⟩
  · obtain ⟨default, hmem, hid, hzero⟩ := h.default
    refine ⟨_, mem_groupsWithout.mpr ⟨default, hmem, fun heq => hdefault (heq.symm.trans hid), rfl⟩,
      ?_, ?_⟩
    · split_ifs
      · exact hid
      · exact hid
    · split_ifs
      · exact hzero
      · exact hzero
  · intro group hgroup hsort
    obtain ⟨old, hold, -, rfl⟩ := mem_groupsWithout.mp hgroup
    split_ifs at hsort ⊢
    · exact h.others old hold hsort
    · exact h.others old hold hsort
  · have hcount (groups : List SessionGroup) : (groups.countP fun group => group.id ≠ first)
        = (groups.map SessionGroup.id).countP (· ≠ first) := by
      rw [List.countP_map]
      rfl
    rw [hcount, ids_groupsWithout]
    refine Nat.le_trans ?_ (hcount groups ▸ h.count)
    exact List.filter_sublist.countP_le

/-- **Every change keeps the invariant.** -/
theorem GroupsInv.change (h : GroupsInv first issued data.groups) (hfresh : env.newId ∉ issued)
    {op : VaultOp} (hchange : GroupChange env data op groups) :
    GroupsInv first (env.newId :: issued) groups := by
  cases hchange with
  | kept => exact h.cons _
  | created hvalid => exact h.created hfresh hvalid
  | updated hvalid hmodify => exact (h.updated hvalid hmodify).cons _
  | @deleted groupId hdefault =>
    refine (h.deleted ?_).cons _
    rintro rfl
    rw [VaultData.isDefaultGroupId, h.defaultGroupId] at hdefault
    exact absurd hdefault (by simp)

/-! ### What a change does to the parents -/

theorem parentOf_created {sortOrder : UInt32} (hfresh : env.newId ∉ groups.map SessionGroup.id) :
    parentOf (groups ++ [.new env.now env.newId input sortOrder])
      = Function.update (parentOf groups) env.newId input.parentId := by
  funext id
  rw [parentOf, List.find?_append]
  by_cases hid : id = env.newId
  · subst hid
    have hnone : groups.find? (fun group => group.id = env.newId) = none := by
      refine List.find?_eq_none.mpr fun group hgroup => ?_
      rw [decide_eq_true_iff]
      exact fun heq => hfresh (heq ▸ List.mem_map_of_mem hgroup)
    rw [Function.update_self, hnone, Option.none_or,
      List.find?_cons_of_pos (by simp [SessionGroup.new]), Option.bind_some]
    rfl
  · rw [Function.update_of_ne hid,
      List.find?_cons_of_neg fun heq => hid (of_decide_eq_true heq).symm, List.find?_nil,
      Option.or_none]
    rfl

/-- An updated group is the only one whose parent changes. -/
theorem parentOf_updated {groupId : String} {groups' : List SessionGroup}
    (hmodify : FirstMatch.modify (fun group => group.id = groupId)
      (SessionGroup.update env.now input) groups = some groups') :
    parentOf groups' = Function.update (parentOf groups) groupId input.parentId := by
  funext id
  by_cases hid : id = groupId
  · subst hid
    have hkeep (group : SessionGroup) :
        decide ((SessionGroup.update env.now input group).id = id) = decide (group.id = id) := rfl
    obtain ⟨group, -, hfound⟩ := FirstMatch.find?_modify_self hkeep hmodify
    rw [Function.update_self, parentOf, hfound, Option.bind_some]
    rfl
  · rw [Function.update_of_ne hid, parentOf, parentOf]
    rw [FirstMatch.find?_modify_of_other hmodify]
    · intro group hgroup
      rw [decide_eq_true_iff] at hgroup
      exact decide_eq_false fun heq => hid (heq.symm.trans hgroup)
    · intro group hgroup
      rw [decide_eq_true_iff] at hgroup
      exact decide_eq_false fun heq => hid (heq.symm.trans hgroup)

theorem parentOf_groupsWithout (groupId id : String) :
    parentOf (groupsWithout groupId groups) id
      = if id = groupId then none else (parentOf groups id).filter (· ≠ groupId) := by
  have hfind : (groupsWithout groupId groups).find? (fun group => group.id = id)
      = if id = groupId then none
        else (groups.find? fun group => group.id = id).map fun group =>
          if group.parentId = some groupId then { group with parentId := none } else group := by
    rw [groupsWithout, List.find?_map, List.find?_filter]
    have hkeep (group : SessionGroup) :
        decide ((if group.parentId = some groupId then { group with parentId := none }
          else group).id = id) = decide (group.id = id) := by
      split <;> rfl
    split_ifs with hid
    · subst hid
      rw [List.find?_eq_none.mpr, Option.map_none]
      intro group _
      simp only [Function.comp_apply, hkeep]
      simp
    · congr 1
      refine congrArg (fun p => groups.find? p) (funext fun group => ?_)
      simp only [Function.comp_apply, hkeep]
      by_cases hgroup : group.id = id
      · simp [hgroup, hid]
      · simp [hgroup]
  rw [parentOf, hfind]
  split_ifs with hid
  · rfl
  · rw [parentOf]
    cases groups.find? fun group => group.id = id with
    | none => rfl
    | some group =>
      rw [Option.map_some, Option.bind_some, Option.bind_some]
      by_cases hchild : group.parentId = some groupId
      · rw [if_pos hchild, hchild]
        exact (if_neg (by simp)).symm
      · rw [if_neg hchild]
        cases hparent : group.parentId with
        | none => rfl
        | some parentId =>
          have hne : parentId ≠ groupId := fun heq => hchild (heq ▸ hparent)
          exact (if_pos (decide_eq_true hne)).symm

/-! ### What leaves a forest -/

/-- **The operation makes no cycle of groups**: an update that is accepted gives the group no
parent that is below it. -/
def KeepsForest (data : VaultData) : VaultOp → Prop
  | .updateGroup groupId input =>
    validateGroupInput data (some groupId) input = .ok () →
      ∀ parentId ∈ input.parentId, ¬ Above (parentOf data.groups) parentId groupId
  | _ => True

theorem GroupsInv.not_above (h : GroupsInv first issued groups) {id parentId : String}
    (hparent : parentId ∈ groups.map SessionGroup.id) (hid : id ∉ groups.map SessionGroup.id) :
    ¬ Above (parentOf groups) parentId id := by
  rintro ⟨n, hclimb⟩
  exact hid (h.climb_known hparent hclimb)

/-- **Which changes leave a forest.** -/
theorem GroupsInv.forest_change_iff (h : GroupsInv first issued data.groups)
    (hfresh : env.newId ∉ issued) (hforest : GroupForest data.groups) {op : VaultOp}
    (hchange : GroupChange env data op groups) : GroupForest groups ↔ KeepsForest data op := by
  have hafter := h.change hfresh hchange
  have hrooted := h.forest_iff.mp hforest
  rw [hafter.forest_iff]
  cases hchange with
  | kept hop =>
    refine ⟨fun _ => ?_, fun _ => hrooted⟩
    cases op with
    | updateGroup groupId input => exact absurd rfl (hop groupId input)
    | _ => trivial
  | @created input hvalid =>
    refine ⟨fun _ => trivial, fun _ => ?_⟩
    have hnew := h.fresh hfresh
    rw [parentOf_created hnew]
    cases hparent : input.parentId with
    | none => exact fun id => rooted_update_none (hrooted id)
    | some parentId =>
      exact (rooted_update_iff hrooted).mpr
        (h.not_above (validateGroupInput_ok hvalid parentId hparent) hnew)
  | @updated groupId input groups hvalid hmodify =>
    rw [parentOf_updated hmodify, KeepsForest]
    cases hparent : input.parentId with
    | none =>
      refine ⟨fun _ _ parentId hmem => ?_, fun _ id => rooted_update_none (hrooted id)⟩
      cases hmem
    | some parentId =>
      rw [rooted_update_iff hrooted]
      refine ⟨fun hnot _ id hmem => ?_, fun hkeeps => hkeeps hvalid parentId rfl⟩
      obtain rfl := Option.some.inj hmem
      exact hnot
  | deleted =>
    exact ⟨fun _ => trivial, fun _ id =>
      rooted_remove (fun id => parentOf_groupsWithout _ id) (hrooted id)⟩

/-! ### Runs -/

/-- An operation that succeeds makes one of the changes. -/
theorem groupChange_of_perform {op : VaultOp} (hok : op.perform env data = .ok data') :
    GroupChange env data op data'.groups := by
  obtain ⟨_, _, hok⟩ := bind_ok hok
  split_ifs at hok with hnoop
  · obtain rfl := Except.ok.inj hok
    refine .kept ?_
    rintro groupId input rfl
    cases hnoop
  · obtain ⟨updated, hupdate, hok⟩ := bind_ok hok
    obtain rfl := Except.ok.inj hok
    have hchange := groupChange_of_update hupdate
    exact hchange

/-- An update that is accepted, but fails, is one of no group. -/
theorem GroupsInv.keepsForest_of_error (h : GroupsInv first issued data.groups) {op : VaultOp}
    {error : AppError} (herror : op.perform env data = .error error) : KeepsForest data op := by
  cases op with
  | updateGroup groupId input =>
    intro hvalid parentId hparent
    refine h.not_above (validateGroupInput_ok hvalid parentId hparent) fun hid => ?_
    obtain ⟨group, hgroup, heq⟩ := List.mem_map.mp hid
    have hsome : FirstMatch.modify (fun group => group.id = groupId)
        (SessionGroup.update env.now input) data.groups ≠ none := by
      intro hnone
      exact absurd (FirstMatch.modify_eq_none hnone group hgroup) (by simp [heq])
    obtain ⟨groups, hmodify⟩ := Option.ne_none_iff_exists'.mp hsome
    have hupdate : Vault.updateGroup env groupId input data =
        .ok { data with groups := groups } := by
      unfold Vault.updateGroup
      simp only [hvalid, hmodify]
      rfl
    change (Vault.updateGroup env groupId input data >>= fun data =>
      pure (VaultData.touch env.now data)) = _ at herror
    rw [hupdate] at herror
    cases herror
  | _ => trivial

/-- The event makes no cycle of groups. -/
def Workspace.keepsForest (s : Workspace) : WorkspaceEvent → Prop
  | .operate _ op => KeepsForest s.data op
  | .restore _ _ => True

/-- The invariant of the groups, in all states so far. -/
structure Workspace.GroupsInv (first : String) (s : Workspace) : Prop where
  current : s.data ∈ s.earlier
  earlier : ∀ data ∈ s.earlier, Vault.GroupsInv first s.issued data.groups

theorem groupsInv_withDefaultGroup (now id : String) :
    GroupsInv id [id] (VaultData.withDefaultGroup now id).groups where
  distinct := List.nodup_singleton id
  known := fun group hgroup => List.mem_singleton.mp hgroup ▸ List.mem_cons_self
  parents := by
    intro group hgroup parentId hparent
    obtain rfl := List.mem_singleton.mp hgroup
    cases hparent
  default := ⟨_, List.mem_cons_self, rfl, rfl⟩
  others := fun group hgroup _ => List.mem_singleton.mp hgroup ▸ rfl
  count := by
    have hnone : ([SessionGroup.new now id ⟨defaultGroupName, none⟩ 0].countP
        fun group => group.id ≠ id) = 0 := by
      simp [SessionGroup.new]
    exact Nat.le_trans (Nat.le_of_eq hnone) (Nat.zero_le _)

/-- The migration of an import leaves the groups alone. -/
theorem groups_migrateVaultData (now : String) (data : VaultData) :
    (migrateVaultData now data).1.groups = data.groups := by
  have hids : (migrateSessionIds data).groups = data.groups := by
    have hversion : (if data.version < vaultDataVersion then
      { data with version := vaultDataVersion }
        else data).groups = data.groups := by
      split
      · rfl
      · rfl
    rw [migrateSessionIds]
    dsimp only
    generalize (if data.version < vaultDataVersion then { data with version := vaultDataVersion }
      else data) = data₁ at hversion ⊢
    split
    · split
      · exact hversion
      · exact hversion
    · exact hversion
  rw [migrateVaultData]
  split_ifs
  · rfl
  · exact hids

/-- **One step keeps the invariant of the groups.** -/
theorem Workspace.GroupsInv.step {now id : String} {s s' : Workspace} {event : WorkspaceEvent}
    (h : s.GroupsInv first) (hstep : (workspace now id).step s event = some s') :
    s'.GroupsInv first := by
  obtain ⟨henabled, rfl⟩ := Machine.guarded_step.mp hstep
  cases event with
  | operate env op =>
    have hold : ∀ data ∈ s.earlier, Vault.GroupsInv first (env.newId :: s.issued) data.groups :=
      fun data hdata => (h.earlier data hdata).cons env.newId
    rw [Workspace.next]
    dsimp only
    split
    · rename_i data hok
      have hdata := (h.earlier s.data h.current).change henabled (groupChange_of_perform hok)
      exact ⟨List.mem_cons_self, List.forall_mem_cons.mpr ⟨hdata, hold⟩⟩
    · exact ⟨h.current, hold⟩
  | restore now data =>
    refine ⟨List.mem_cons_self, List.forall_mem_cons.mpr ⟨?_, h.earlier⟩⟩
    rw [groups_migrateVaultData]
    exact h.earlier data henabled

/-- **One step leads from forests to forests exactly when it makes no cycle.** -/
theorem Workspace.GroupsInv.forest_step_iff {now id : String} {s s' : Workspace}
    {event : WorkspaceEvent} (h : s.GroupsInv first)
    (hstep : (workspace now id).step s event = some s') :
    (∀ data ∈ s'.earlier, GroupForest data.groups) ↔
      (∀ data ∈ s.earlier, GroupForest data.groups) ∧ s.keepsForest event := by
  obtain ⟨henabled, rfl⟩ := Machine.guarded_step.mp hstep
  cases event with
  | operate env op =>
    rw [Workspace.next]
    dsimp only
    split
    · rename_i data hok
      have hiff (hforest : ∀ data ∈ s.earlier, GroupForest data.groups) :=
        (h.earlier s.data h.current).forest_change_iff henabled (hforest s.data h.current)
          (groupChange_of_perform hok)
      change (∀ other ∈ data :: s.earlier, _) ↔ _
      rw [List.forall_mem_cons]
      exact ⟨fun hall => ⟨hall.2, (hiff hall.2).mp hall.1⟩,
        fun hall => ⟨(hiff hall.1).mpr hall.2, hall.1⟩⟩
    · rename_i error herror
      have hkeeps := (h.earlier s.data h.current).keepsForest_of_error herror
      exact ⟨fun hall => ⟨hall, hkeeps⟩, fun hall => hall.1⟩
  | restore now data =>
    change (∀ other ∈ (migrateVaultData now data).1 :: s.earlier, _) ↔ _
    rw [List.forall_mem_cons, groups_migrateVaultData]
    exact ⟨fun hall => ⟨hall.2, trivial⟩, fun hall => ⟨hall.1 data henabled, hall.1⟩⟩

/-- **The groups of a workspace.**  In every state of every run the default group is the one that
the workspace was created with, and there are at most ten others; and the groups are a forest in
every state exactly when no update that is accepted gives a group a parent below it. -/
theorem groups_forest_iff (now id : String) {events : List WorkspaceEvent} {s : Workspace}
    (h : (workspace now id).run events = some s) :
    s.data ∈ s.earlier ∧
      (∀ data ∈ s.earlier, data.defaultGroupId = some id ∧ Config.customGroupCount data ≤ 10) ∧
      ((∀ data ∈ s.earlier, GroupForest data.groups) ↔
        (workspace now id).Meets Workspace.keepsForest events) := by
  have hinit : (workspace now id).init.GroupsInv id :=
    ⟨List.mem_cons_self, fun data hdata =>
      List.mem_singleton.mp hdata ▸ groupsInv_withDefaultGroup now id⟩
  have hinv : s.GroupsInv id :=
    Machine.run_invariant hinit (fun s event s' hs hstep => hs.step hstep) h
  refine ⟨hinv.current, fun data hdata => ?_, ?_⟩
  · have hgroups := hinv.earlier data hdata
    exact ⟨hgroups.defaultGroupId, hgroups.customGroupCount.trans_le hgroups.count⟩
  · refine Machine.run_iff_meets (P := fun s => ∀ data ∈ s.earlier, GroupForest data.groups) hinit
      (fun data hdata => ?_) (fun s event s' hs hstep => hs.step hstep)
      (fun s event s' hs hstep => hs.forest_step_iff hstep) h
    obtain rfl := List.mem_singleton.mp hdata
    intro group hgroup
    refine ⟨0, group, hgroup, rfl, ?_⟩
    obtain rfl := List.mem_singleton.mp hgroup
    rfl

/-- A group with another one below it, which becomes its parent. -/
def cycleRun : List WorkspaceEvent :=
  [.operate (exampleEnv "g1") (.createGroup ⟨"outer", none⟩),
    .operate (exampleEnv "g2") (.createGroup ⟨"inner", some "g1"⟩),
    .operate (exampleEnv "u1") (.updateGroup "g1" ⟨"outer", some "g2"⟩)]

/-- The first two of these operations leave a forest. -/
theorem groups_forest_iff_nested :
    ∃ s, (workspace "t" "g0").run (cycleRun.take 2) = some s ∧ s.data.groups.length = 3 ∧
      s.data.defaultGroupId = some "g0" ∧ GroupForest s.data.groups := by
  refine ⟨_, rfl, by decide, ?_⟩
  have hrun : (workspace "t" "g0").run (cycleRun.take 2) = some _ := rfl
  obtain ⟨hcurrent, hdefault, hforest⟩ := groups_forest_iff "t" "g0" hrun
  exact ⟨(hdefault _ hcurrent).1,
    hforest.mpr ⟨trivial, fun _ _ => ⟨trivial, fun _ _ => trivial⟩⟩ _ hcurrent⟩

/-- Following the parents round the cycle stays on it. -/
theorem climb_cycle {parent : String → Option String} {a b : String} (ha : parent a = some b)
    (hb : parent b = some a) {n : ℕ} {id above : String} (hid : id = a ∨ id = b)
    (hclimb : climb parent n id = some above) : above = a ∨ above = b := by
  induction n generalizing id with
  | zero =>
    obtain rfl := Option.some.inj hclimb
    exact hid
  | succ n ih =>
    rcases hid with rfl | rfl
    · rw [climb, ha] at hclimb
      exact ih (Or.inr rfl) hclimb
    · rw [climb, hb] at hclimb
      exact ih (Or.inl rfl) hclimb

/-- The third one makes a cycle. -/
theorem cycleRun_not_forest :
    ¬ ∀ events s, (workspace "t" "g0").run events = some s → GroupForest s.data.groups := by
  intro h
  have hrun : (workspace "t" "g0").run cycleRun = some _ := rfl
  obtain ⟨n, root, hroot, hclimb, hnone⟩ := h _ _ hrun _ (List.mem_cons_of_mem _ List.mem_cons_self)
  have hcycle := climb_cycle (a := "g1") (b := "g2") (by decide) (by decide) (Or.inl rfl) hclimb
  rcases List.mem_cons.mp hroot with rfl | hroot
  · exact absurd hcycle (by decide)
  rcases List.mem_cons.mp hroot with rfl | hroot
  · cases hnone
  rcases List.mem_cons.mp hroot with rfl | hroot
  · cases hnone
  · cases hroot

end Vault
end HelmSsh
