/-
# Where the records of the tables come from

A record that is in a table after a step was there before it, and the step is not one of a
teardown that takes it; or the step inserts it, and then its connection is registered, but for
two cases: an `open_sftp` inserts its record without looking at the registry again, and a stop
puts a record back that it had removed.  The same for the transfers that are active.
-/

import HelmSsh.Remote.ForwardMoves
import HelmSsh.Remote.SftpMoves

namespace HelmSsh
namespace Remote

open Children (Child)
open Forward (Start)
open Sftp (Open Transfer)

/-- The terminals and the telemetry jobs that a step of a teardown removes. -/
def TeardownAction.children : TeardownAction → List ℕ
  | .removeTerminal terminal _ => [terminal]
  | .takeTelemetry jobs => jobs
  | _ => []

/-- The sessions that it takes. -/
def TeardownAction.sessions : TeardownAction → List ℕ
  | .takeSftp sessions => sessions
  | _ => []

/-- The forwards that it takes. -/
def TeardownAction.forwards : TeardownAction → List ℕ
  | .takeForwards forwards => forwards
  | _ => []

/-- The transfer that a step cancels for its session. -/
def Event.cancels : Event → Option ℕ
  | .sftp (.closeAct _ (.cancel transfer _)) => some transfer
  | .teardown _ (.cancelTransfer _ transfer _) => some transfer
  | .shutdown (.cancelTransfer _ transfer _) => some transfer
  | _ => none

namespace Runtime

variable {s s' : Runtime} {event : Event}

/-! ### Terminals and telemetry jobs -/

theorem unlistAll_nil (children : List Child) : Children.unlistAll children [] = children := by
  refine List.ext_getElem? fun i => ?_
  simp [Children.unlistAll, List.getElem?_mapIdx]

theorem listed_of_unlistAll {children : List Child} {ids : List ℕ} {i : ℕ} {ch : Child}
    (hch : (Children.unlistAll children ids)[i]? = some ch) (hl : ch.listed = true) :
    children[i]? = some ch ∧ i ∉ ids := by
  rw [Children.unlistAll, List.getElem?_mapIdx] at hch
  obtain ⟨ch₀, hch₀, rfl⟩ := Option.map_eq_some_iff.mp hch
  split_ifs at hl ⊢ with hmem
  exact ⟨hch₀, fun h => hmem (List.contains_iff_mem.mpr h)⟩

/-- A step of a teardown removes the terminals and the jobs of its list. -/
theorem afterTeardown_children (s : Runtime) (c : ℕ) (action : TeardownAction) :
    (s.afterTeardown c action).children = Children.unlistAll s.children action.children := by
  cases action with
  | removeTerminal terminal rest => rfl
  | takeTelemetry jobs => rfl
  | cancelForward forward record rest =>
    rw [show TeardownAction.children (.cancelForward forward record rest) = [] from rfl,
      unlistAll_nil]
    simp only [afterTeardown, setStage, cancelForward]
    split
    · split_ifs <;> rfl
    · rfl
  | _ => exact (unlistAll_nil s.children).symm

/-- **A terminal or a telemetry job was in its table before the step, or its connection is
registered.** -/
theorem child_of_step (h : machine.step s event = some s') {i : ℕ} {ch' : Child}
    (hch' : s'.children[i]? = some ch') (hl : ch'.listed = true) :
    (∃ ch, s.children[i]? = some ch ∧ ch.listed = true ∧ ch.kind = ch'.kind ∧
      ch.connectionId = ch'.connectionId ∧
      ∀ c action, event = .teardown c action → i ∉ action.children) ∨
    (s'.connection ch'.connectionId).isSome = true := by
  have hunlisted : ∀ ids, s'.children = Children.unlistAll s.children ids →
      (∀ c action, event ≠ .teardown c action) →
      ∃ ch, s.children[i]? = some ch ∧ ch.listed = true ∧ ch.kind = ch'.kind ∧
        ch.connectionId = ch'.connectionId ∧
        ∀ c action, event = .teardown c action → i ∉ action.children := by
    intro ids heq hne
    rw [heq] at hch'
    obtain ⟨hold, _⟩ := listed_of_unlistAll hch' hl
    exact ⟨ch', hold, hl, rfl, rfl, fun c action heq => absurd heq (hne c action)⟩
  have hsame : s'.children = s.children → (∀ c action, event ≠ .teardown c action) →
      ∃ ch, s.children[i]? = some ch ∧ ch.listed = true ∧ ch.kind = ch'.kind ∧
        ch.connectionId = ch'.connectionId ∧
        ∀ c action, event = .teardown c action → i ∉ action.children := by
    intro heq
    exact hunlisted [] (by rw [heq, unlistAll_nil])
  cases event with
  | connect info | disconnect c =>
    obtain ⟨-, rfl⟩ := Option.ite_some_none_eq_some.mp h
    exact .inl (hsame rfl (by simp))
  | teardown c action =>
    obtain ⟨_, _, _, rfl⟩ := teardown_of_step h
    rw [afterTeardown_children] at hch'
    obtain ⟨hold, hnot⟩ := listed_of_unlistAll hch' hl
    refine .inl ⟨ch', hold, hl, rfl, rfl, ?_⟩
    intro c' action' heq
    cases heq
    exact hnot
  | shutdown action =>
    obtain ⟨-, rfl⟩ := Option.ite_some_none_eq_some.mp h
    refine .inl ?_
    cases action with
    | close connection rest =>
      refine hsame ?_ (by simp)
      simp only [afterShutdown]
      split_ifs <;> rfl
    | drainTerminals => exact hunlisted _ rfl (by simp)
    | drainTelemetry => exact hunlisted _ rfl (by simp)
    | cancelForward forward record rest =>
      refine hsame ?_ (by simp)
      simp only [afterShutdown, cancelForward]
      split
      · split_ifs <;> rfl
      · rfl
    | _ => exact hsame rfl (by simp)
  | child event =>
    obtain ⟨children, hstep, rfl⟩ := Option.map_eq_some_iff.mp h
    cases event with
    | «open» kind c =>
      obtain ⟨-, rfl⟩ := Option.ite_some_none_eq_some.mp hstep
      rcases Pool.getElem?_add hch' with ⟨_, rfl⟩ | hold
      · cases hl
      · exact .inl ⟨ch', hold, hl, rfl, rfl, by simp⟩
    | act j action =>
      obtain ⟨ch, hch, -, rfl⟩ := Pool.act_eq_some.mp hstep
      rcases Pool.getElem?_set hch' with ⟨rfl, rfl⟩ | ⟨_, hold⟩
      · cases action with
        | insert =>
          simp only [Child.next] at hl ⊢
          split_ifs at hl ⊢ with hconnection
          · exact .inr hconnection
          · exact .inl ⟨ch, hch, hl, rfl, rfl, by simp⟩
        | signal ok =>
          exact .inl ⟨ch, hch, (Bool.and_eq_true_iff.mp hl).1, rfl, rfl, by simp⟩
        | remove => cases hl
        | _ => exact .inl ⟨ch, hch, hl, rfl, rfl, by simp⟩
      · exact .inl ⟨ch', hold, hl, rfl, rfl, by simp⟩
  | sftp event =>
    obtain ⟨sftp, _, rfl⟩ := Option.map_eq_some_iff.mp h
    exact .inl (hsame rfl (by simp))
  | forward event =>
    obtain ⟨forwards, _, rfl⟩ := Option.map_eq_some_iff.mp h
    exact .inl (hsame rfl (by simp))

/-! ### Forwards -/

/-- The forwards that a step of a teardown takes have no record. -/
theorem record_of_afterTeardown {c i : ℕ} {action : TeardownAction} {f' : Start}
    (hf' : (s.afterTeardown c action).forwards.starts[i]? = some f')
    (hrecord : f'.record.isSome = true) : i ∉ action.forwards := by
  cases action with
  | takeForwards forwards =>
    intro hmem
    have hmem : i ∈ forwards := hmem
    have hget : (s.forwards.starts.mapIdx fun i f =>
        if forwards.contains i then { f with record := none } else f)[i]? = some f' := hf'
    rw [List.getElem?_mapIdx] at hget
    obtain ⟨f, _, rfl⟩ := Option.map_eq_some_iff.mp hget
    rw [if_pos (List.contains_iff_mem.mpr hmem)] at hrecord
    cases hrecord
  | _ => exact List.not_mem_nil

/-- **A forward was in the table before the step, or its connection is registered, or a stop puts
it back.** -/
theorem record_of_step (hwf : s.forwards.Wf) (h : machine.step s event = some s') {i : ℕ}
    {f' : Start} (hf' : s'.forwards.starts[i]? = some f') (hrecord : f'.record.isSome = true) :
    (∃ f, s.forwards.starts[i]? = some f ∧ f.record.isSome = true ∧ f.request = f'.request ∧
      ∀ c action, event = .teardown c action → i ∉ action.forwards) ∨
    (s'.connection f'.request.connectionId).isSome = true ∨
    ∃ j x f, event = .forward (.stopAct j (.restore x)) ∧ x.forward = i ∧
      s.forwards.starts[i]? = some f ∧ f.request = f'.request := by
  have hnot : ∀ c action, event = .teardown c action → i ∉ action.forwards := by
    rintro c action rfl
    obtain ⟨_, _, _, rfl⟩ := teardown_of_step h
    exact record_of_afterTeardown hf' hrecord
  have hfinds : ∀ connection, Forward.Finds s event f'.request.connectionId connection →
      (s'.connection f'.request.connectionId).isSome = true := by
    rintro connection ⟨⟨event, rfl⟩, hc⟩
    obtain ⟨forwards, _, rfl⟩ := Option.map_eq_some_iff.mp h
    exact Option.isSome_iff_exists.mpr ⟨connection, hc⟩
  have hgoing := Forward.going_of_step hwf h
  cases hf : s.forwards.starts[i]? with
  | none =>
    obtain ⟨connection, hc, _⟩ := hgoing.back i f' hf' hf
    exact .inr (.inl (hfinds connection hc))
  | some f =>
    obtain ⟨g, hg, hgoes⟩ := hgoing.forth i f hf
    obtain rfl := Option.some.inj (hf'.symm.trans hg)
    rcases hgoes.record hrecord with hold | ⟨connection, hc⟩ | ⟨j, x, he, hx⟩
    · exact .inl ⟨f, rfl, hold, hgoes.request.symm, hnot⟩
    · rw [← hgoes.request] at hc
      exact .inr (.inl (hfinds connection hc))
    · exact .inr (.inr ⟨j, x, f, he, hx, rfl, hgoes.request.symm⟩)

/-! ### Sessions -/

theorem connections_of_sftp {sftpEvent : Sftp.Event}
    (h : machine.step s (.sftp sftpEvent) = some s') : s'.connections = s.connections := by
  obtain ⟨sftp, _, rfl⟩ := Option.map_eq_some_iff.mp h
  rfl

theorem open_forth (hwf : Sftp.Wf s) (h : machine.step s event = some s') {i : ℕ} {o : Open}
    (ho : s.sftp.opens[i]? = some o) :
    ∃ o', s'.sftp.opens[i]? = some o' ∧ o'.connectionId = o.connectionId := by
  cases Sftp.opensMove_of_moved hwf (Sftp.moved_of_step h) with
  | fades hfades _ =>
    obtain ⟨o', ho', hf⟩ := hfades.forth ho
    exact ⟨o', ho', hf.connectionId⟩
  | add c heq =>
    rw [heq]
    exact ⟨o, Pool.getElem?_add_left ho, rfl⟩
  | own j p action _ hp he heq =>
    obtain ⟨p', hp'⟩ := Sftp.openStep_afterOpen (hwf.opens j p hp) he
    rw [heq, hp'.opens]
    by_cases hij : j = i
    · subst hij
      obtain rfl := Option.some.inj (ho.symm.trans hp)
      exact ⟨p', Pool.getElem?_set_self ho, hp'.connectionId⟩
    · exact ⟨o, by rw [List.getElem?_set_ne hij]; exact ho, rfl⟩

/-- The sessions that a step of a teardown takes are not in the table. -/
theorem listed_of_afterTeardown {c i : ℕ} {action : TeardownAction} {o' : Open}
    (ho' : (s.afterTeardown c action).sftp.opens[i]? = some o') (hl : o'.listed = true) :
    i ∉ action.sessions := by
  cases action with
  | takeSftp sessions =>
    intro hmem
    have hmem : i ∈ sessions := hmem
    have hget : (s.sftp.opens.mapIdx fun i o =>
        if sessions.contains i && o.listed then { o with listed := false, closed := true }
        else o)[i]? = some o' := ho'
    rw [List.getElem?_mapIdx] at hget
    obtain ⟨o, _, rfl⟩ := Option.map_eq_some_iff.mp hget
    split_ifs at hl with htaken
    exact htaken (Bool.and_eq_true_iff.mpr ⟨List.contains_iff_mem.mpr hmem, hl⟩)
  | _ => exact List.not_mem_nil

/-- **A session was in the table before the step, or its call had opened the channel.** -/
theorem session_of_step (hwf : Sftp.Wf s) (h : machine.step s event = some s') {i : ℕ} {o' : Open}
    (ho' : s'.sftp.opens[i]? = some o') (hl : o'.listed = true) :
    (∃ o, s.sftp.opens[i]? = some o ∧ o.listed = true ∧ o.connectionId = o'.connectionId ∧
      ∀ c action, event = .teardown c action → i ∉ action.sessions) ∨
    s'.connections = s.connections ∧ ∃ o, s.sftp.opens[i]? = some o ∧
      o.phase = .opened ∧ o.connectionId = o'.connectionId := by
  have hnot : ∀ c action, event = .teardown c action → i ∉ action.sessions := by
    rintro c action rfl
    obtain ⟨_, _, _, rfl⟩ := teardown_of_step h
    exact listed_of_afterTeardown ho' hl
  cases Sftp.opensMove_of_moved hwf (Sftp.moved_of_step h) with
  | fades hfades _ =>
    obtain ⟨o, ho, hf⟩ := hfades.back ho'
    exact .inl ⟨o, ho, (hf.listed hl).1, hf.connectionId.symm, hnot⟩
  | add c heq =>
    rw [heq] at ho'
    rcases Pool.getElem?_add ho' with ⟨_, rfl⟩ | hold
    · cases hl
    · exact .inl ⟨o', hold, hl, rfl, hnot⟩
  | own j p action hevent hp he heq =>
    obtain ⟨p', hp'⟩ := Sftp.openStep_afterOpen (hwf.opens j p hp) he
    rw [heq, hp'.opens] at ho'
    rcases Pool.getElem?_set ho' with ⟨rfl, rfl⟩ | ⟨_, hold⟩
    · rcases hp'.inserts hl with hlisted | hopened
      · exact .inl ⟨p, hp, hlisted, hp'.connectionId.symm, hnot⟩
      · rw [hevent] at h
        exact .inr ⟨connections_of_sftp h, p, hp, hopened, hp'.connectionId.symm⟩
    · exact .inl ⟨o', hold, hl, rfl, hnot⟩

/-- **A call that opens a channel did so before the step, or its connection is registered.** -/
theorem opening_of_step (hwf : Sftp.Wf s) (h : machine.step s event = some s') {i : ℕ} {o' : Open}
    (ho' : s'.sftp.opens[i]? = some o') (hp : o'.phase = .opening ∨ o'.phase = .opened) :
    (∃ o, s.sftp.opens[i]? = some o ∧ (o.phase = .opening ∨ o.phase = .opened) ∧
      o.connectionId = o'.connectionId) ∨ (s'.connection o'.connectionId).isSome = true := by
  cases Sftp.opensMove_of_moved hwf (Sftp.moved_of_step h) with
  | fades hfades _ =>
    obtain ⟨o, ho, hf⟩ := hfades.back ho'
    rw [hf.phase] at hp
    exact .inl ⟨o, ho, hp, hf.connectionId.symm⟩
  | add c heq =>
    rw [heq] at ho'
    rcases Pool.getElem?_add ho' with ⟨_, rfl⟩ | hold
    · rcases hp with hp | hp <;> cases hp
    · exact .inl ⟨o', hold, hp, rfl⟩
  | own j p action hevent hget he heq =>
    obtain ⟨p', hp'⟩ := Sftp.openStep_afterOpen (hwf.opens j p hget) he
    rw [heq, hp'.opens] at ho'
    rcases Pool.getElem?_set ho' with ⟨rfl, rfl⟩ | ⟨_, hold⟩
    · rcases hp'.looked hp with hbefore | hconnection
      · exact .inl ⟨p, hget, hbefore, hp'.connectionId.symm⟩
      · rw [hevent] at h
        refine .inr ?_
        rw [hp'.connectionId, connection, connections_of_sftp h]
        exact hconnection
    · exact .inl ⟨o', hold, hp, rfl⟩

/-- **A session leaves the table by a `close_sftp`, by a teardown, or by `shutdown_all`.** -/
theorem unlisted_of_step (hwf : Sftp.Wf s) (h : machine.step s event = some s') {i : ℕ}
    {o o' : Open} (ho : s.sftp.opens[i]? = some o) (hl : o.listed = true)
    (ho' : s'.sftp.opens[i]? = some o') (hl' : o'.listed = false) :
    (∃ j cl, event = .sftp (.closeAct j .remove) ∧ s.sftp.closes[j]? = some cl ∧ cl.sftpId = i) ∨
      (∃ c sessions, event = .teardown c (.takeSftp sessions) ∧ i ∈ sessions) ∨
      event = .shutdown .drainSftp := by
  have hmove := Sftp.moved_of_step h
  generalize s'.sftp = sftp at *
  -- A step that leaves the flags of the records.
  have hkept : Pool.Related (fun o o' : Open => o'.listed = o.listed) s.sftp.opens sftp.opens →
      False := by
    intro hrel
    obtain ⟨p, hp, hsame⟩ := hrel.back ho'
    obtain rfl := Option.some.inj (ho.symm.trans hp)
    rw [hsame, hl] at hl'
    cases hl'
  have hrefl : Pool.Related (fun o o' : Open => o'.listed = o.listed) s.sftp.opens s.sftp.opens :=
    Pool.related_refl (R := fun o o' : Open => o'.listed = o.listed) fun _ => rfl
  have hmodify : ∀ (k : ℕ) (f : Open → Open), (∀ o, (f o).listed = o.listed) →
      Pool.Related (fun o o' : Open => o'.listed = o.listed) s.sftp.opens
        (s.sftp.opens.modify k f) := fun k f hf =>
    Pool.related_modify (R := fun o o' : Open => o'.listed = o.listed) (fun _ => rfl) hf k
  cases hmove with
  | call sftpEvent _ hevent hcall =>
    cases sftpEvent with
    | «open» c =>
      obtain ⟨-, rfl⟩ := Option.ite_some_none_eq_some.mp hcall
      rw [Pool.getElem?_add_left ho] at ho'
      obtain rfl := Option.some.inj ho'
      rw [hl] at hl'
      cases hl'
    | close sftpId =>
      obtain rfl := Option.some.inj hcall
      exact (hkept hrefl).elim
    | start sftpId =>
      obtain ⟨-, rfl⟩ := Option.ite_some_none_eq_some.mp hcall
      exact (hkept hrefl).elim
    | openAct j action =>
      obtain ⟨p, hp, he, rfl⟩ := Pool.act_eq_some.mp hcall
      obtain ⟨p', hp'⟩ := Sftp.openStep_afterOpen (hwf.opens j p hp) he
      rw [hp'.opens] at ho'
      rcases Pool.getElem?_set ho' with ⟨rfl, rfl⟩ | ⟨_, hold⟩
      · obtain rfl := Option.some.inj (ho.symm.trans hp)
        rw [hp'.keeps hl] at hl'
        cases hl'
      · obtain rfl := Option.some.inj (ho.symm.trans hold)
        rw [hl] at hl'
        cases hl'
    | closeAct j action =>
      obtain ⟨cl, hcl, -, rfl⟩ := Pool.act_eq_some.mp hcall
      cases action with
      | remove =>
        by_cases hi : cl.sftpId = i
        · exact .inl ⟨j, cl, hevent, hcl, hi⟩
        · simp only [Sftp.State.afterClose] at ho'
          split_ifs at ho'
          · have hget : (s.sftp.opens.modify cl.sftpId fun o =>
                { o with listed := false })[i]? = some o' := ho'
            rw [List.getElem?_modify_ne _ _ hi] at hget
            obtain rfl := Option.some.inj (ho.symm.trans hget)
            rw [hl] at hl'
            cases hl'
          · obtain rfl := Option.some.inj (ho.symm.trans ho')
            rw [hl] at hl'
            cases hl'
      | beginClose => exact (hkept (hmodify cl.sftpId _ fun _ => rfl)).elim
      | close => exact (hkept (hmodify cl.sftpId _ fun _ => rfl)).elim
      | _ => exact (hkept hrefl).elim
    | transferAct k action =>
      obtain ⟨t, _, -, rfl⟩ := Pool.act_eq_some.mp hcall
      exact (hkept hrefl).elim
  | locks l _ => exact (hkept hrefl).elim
  | take ids l _ he =>
    have hmem : i ∈ ids := by
      have hget : (s.sftp.opens.mapIdx fun i o =>
          if ids.contains i && o.listed then { o with listed := false, closed := true }
          else o)[i]? = some o' := ho'
      rw [List.getElem?_mapIdx, ho, Option.map_some, Option.some.injEq] at hget
      rw [← hget] at hl'
      split_ifs at hl' with htaken
      · exact List.contains_iff_mem.mp (Bool.and_eq_true_iff.mp htaken).1
      · rw [hl] at hl'
        cases hl'
    rcases he with ⟨c, hevent⟩ | hevent
    · exact .inr (.inl ⟨c, ids, hevent, hmem⟩)
    · exact .inr (.inr hevent)
  | cancel k => exact (hkept hrefl).elim
  | close k _ => exact (hkept (hmodify k _ fun _ => rfl)).elim

/-! ### Transfers -/

theorem transfers_of_cancel (h : machine.step s event = some s') {k : ℕ}
    (hc : event.cancels = some k) : s'.sftp.transfers = (s.sftp.cancelTransfer k).transfers := by
  cases event with
  | sftp sftpEvent =>
    cases sftpEvent with
    | closeAct j action =>
      cases action with
      | cancel transfer rest =>
        obtain rfl := Option.some.inj hc
        obtain ⟨sftp, hcall, rfl⟩ := Option.map_eq_some_iff.mp h
        obtain ⟨cl, _, -, rfl⟩ := Pool.act_eq_some.mp hcall
        rfl
      | _ => cases hc
    | _ => cases hc
  | teardown c action =>
    cases action with
    | cancelTransfer sessions transfer rest =>
      obtain rfl := Option.some.inj hc
      obtain ⟨_, _, _, rfl⟩ := teardown_of_step h
      rfl
    | _ => cases hc
  | shutdown action =>
    cases action with
    | cancelTransfer sessions transfer rest =>
      obtain rfl := Option.some.inj hc
      obtain ⟨-, rfl⟩ := Option.ite_some_none_eq_some.mp h
      rfl
    | _ => cases hc
  | _ => cases hc

theorem active_of_cancelTransfer {sftp : Sftp.State} {k x : ℕ} {t : Transfer}
    (ht : (sftp.cancelTransfer x).transfers[k]? = some t) (ha : t.active = true) :
    sftp.transfers[k]? = some t ∧ x ≠ k := by
  have hget : (sftp.transfers.modify x fun t => { t with active := false })[k]? = some t := ht
  by_cases hx : x = k
  · subst hx
    rw [List.getElem?_modify] at hget
    obtain ⟨t₀, _, rfl⟩ := Option.map_eq_some_iff.mp hget
    simp at ha
  · rw [List.getElem?_modify_ne _ _ hx] at hget
    exact ⟨hget, hx⟩

/-- **A transfer was active before the step and was not canceled by it, or it starts on a session
in the table.** -/
theorem active_of_step (hwf : Sftp.Wf s) (h : machine.step s event = some s') {k : ℕ}
    {t' : Transfer} (ht' : s'.sftp.transfers[k]? = some t') (ha : t'.active = true) :
    (∃ t, s.sftp.transfers[k]? = some t ∧ t.active = true ∧ t.sftpId = t'.sftpId ∧
      event.cancels ≠ some k) ∨
    s.sftp.live t'.sftpId = true ∧ s'.sftp.opens = s.sftp.opens := by
  have hnot : event.cancels ≠ some k := by
    intro hc
    rw [transfers_of_cancel h hc] at ht'
    exact (active_of_cancelTransfer ht' ha).2 rfl
  have hmove := Sftp.moved_of_step h
  generalize s'.sftp = sftp at *
  have hsame : sftp.transfers = s.sftp.transfers → ∃ t, s.sftp.transfers[k]? = some t ∧
      t.active = true ∧ t.sftpId = t'.sftpId ∧ event.cancels ≠ some k := by
    intro heq
    rw [heq] at ht'
    exact ⟨t', ht', ha, rfl, hnot⟩
  cases hmove with
  | call sftpEvent _ hevent hcall =>
    cases sftpEvent with
    | «open» c =>
      obtain ⟨-, rfl⟩ := Option.ite_some_none_eq_some.mp hcall
      exact .inl (hsame rfl)
    | close sftpId =>
      obtain rfl := Option.some.inj hcall
      exact .inl (hsame rfl)
    | start sftpId =>
      obtain ⟨-, rfl⟩ := Option.ite_some_none_eq_some.mp hcall
      rcases Pool.getElem?_add ht' with ⟨_, rfl⟩ | hold
      · cases ha
      · exact .inl ⟨t', hold, ha, rfl, hnot⟩
    | openAct j action =>
      obtain ⟨p, hp, he, rfl⟩ := Pool.act_eq_some.mp hcall
      obtain ⟨p', hp'⟩ := Sftp.openStep_afterOpen (hwf.opens j p hp) he
      exact .inl (hsame hp'.transfers)
    | closeAct j action =>
      obtain ⟨cl, hcl, -, rfl⟩ := Pool.act_eq_some.mp hcall
      refine .inl ?_
      cases action with
      | remove =>
        refine hsame ?_
        simp only [Sftp.State.afterClose]
        split_ifs <;> rfl
      | cancel transfer rest =>
        exact ⟨t', (active_of_cancelTransfer ht' ha).1, ha, rfl, hnot⟩
      | _ => exact hsame rfl
    | transferAct x action =>
      obtain ⟨t, ht, he, rfl⟩ := Pool.act_eq_some.mp hcall
      rcases Pool.getElem?_set ht' with ⟨rfl, rfl⟩ | ⟨_, hold⟩
      · cases action with
        | publish => exact .inr ⟨he.2, rfl⟩
        | «end» => cases ha
        | _ => exact .inl ⟨t, ht, ha, rfl, hnot⟩
      · exact .inl ⟨t', hold, ha, rfl, hnot⟩
  | locks l _ => exact .inl (hsame rfl)
  | take ids l _ _ => exact .inl (hsame rfl)
  | cancel x => exact .inl ⟨t', (active_of_cancelTransfer ht' ha).1, ha, rfl, hnot⟩
  | close i _ => exact .inl (hsame rfl)

/-- A step of a `close_sftp`. -/
theorem close_of_step {j : ℕ} {action : Sftp.CloseAction}
    (h : machine.step s (.sftp (.closeAct j action)) = some s') {cl : Sftp.Close}
    (hcl : s.sftp.closes[j]? = some cl) :
    cl.Enabled action ∧ s'.sftp = s.sftp.afterClose j cl action := by
  obtain ⟨sftp, hcall, rfl⟩ := Option.map_eq_some_iff.mp h
  obtain ⟨cl', hcl', hcall⟩ := Option.bind_eq_some_iff.mp hcall
  obtain rfl := Option.some.inj (hcl.symm.trans hcl')
  split_ifs at hcall with he
  exact ⟨he, (Option.some.inj hcall).symm⟩

/-- **A `close_sftp` stays where it is, or takes its step.** -/
theorem close_forth (hwf : Sftp.Wf s) (h : machine.step s event = some s') {j : ℕ}
    {cl : Sftp.Close} (hcl : s.sftp.closes[j]? = some cl) :
    s'.sftp.closes[j]? = some cl ∨ ∃ action, event = .sftp (.closeAct j action) ∧
      cl.Enabled action ∧ s'.sftp = s.sftp.afterClose j cl action := by
  have hmove := Sftp.moved_of_step h
  generalize s'.sftp = sftp at *
  cases hmove with
  | call sftpEvent _ hevent hcall =>
    cases sftpEvent with
    | «open» c | start sftpId =>
      obtain ⟨-, rfl⟩ := Option.ite_some_none_eq_some.mp hcall
      exact .inl hcl
    | close sftpId =>
      obtain rfl := Option.some.inj hcall
      exact .inl (Pool.getElem?_add_left hcl)
    | openAct i action =>
      obtain ⟨p, hp, he, rfl⟩ := Pool.act_eq_some.mp hcall
      obtain ⟨p', hp'⟩ := Sftp.openStep_afterOpen (hwf.opens i p hp) he
      rw [hp'.closes]
      exact .inl hcl
    | closeAct j' action =>
      obtain ⟨cl', hcl', he, rfl⟩ := Pool.act_eq_some.mp hcall
      by_cases hj : j' = j
      · subst hj
        obtain rfl := Option.some.inj (hcl.symm.trans hcl')
        exact .inr ⟨action, hevent, he, rfl⟩
      · refine .inl ?_
        cases action with
        | remove =>
          simp only [Sftp.State.afterClose]
          split_ifs
          · exact (List.getElem?_set_ne hj).trans hcl
          · exact (List.getElem?_set_ne hj).trans hcl
        | _ => exact (List.getElem?_set_ne hj).trans hcl
    | transferAct x action =>
      obtain ⟨t, _, -, rfl⟩ := Pool.act_eq_some.mp hcall
      exact .inl hcl
  | locks l _ => exact .inl hcl
  | take ids l _ _ => exact .inl hcl
  | cancel x => exact .inl hcl
  | close i _ => exact .inl hcl

end Runtime
end Remote
end HelmSsh
