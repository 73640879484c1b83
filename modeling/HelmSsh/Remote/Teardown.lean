/-
# What a teardown leaves behind

`close_children_for_connection` of `src-tauri/src/remote/runtime_registry.rs` drains one table
after the other, while calls go on that put records into them.  `open_terminal`,
`telemetry_start` and the starts of forwards insert their records while they read the registry,
so none comes for a connection that has left it; `open_sftp` holds the lock that the teardown
waits for; and a transfer comes only to a session in the table.

`forward_stop_if_present` removes the record of a remote forward, asks the server, and puts the
record back when the server refuses.  It keeps the registry read from when it finds the
connection, so the connection does not leave it meanwhile (`Owed.reading`).  A teardown that has
finished has left nothing (`clean_of_finished`).

The `Owes` predicates say what a teardown still removes at a stage.
-/

import HelmSsh.Remote.Records
import HelmSsh.Remote.SftpSessions

namespace HelmSsh
namespace Remote

open Children (Child Kind)
open Forward (ForwardRecord Start Stop Taken)
open Sftp (Open Close Transfer)

namespace Stage

/-- The terminals that are left, or that were never listed. -/
def OwesTerminal (i : ℕ) : Stage → Prop
  | .registered | .terminalsListing | .aborted | .drained => True
  | .terminalsRemoving terminals => i ∈ terminals
  | _ => False

/-- The telemetry jobs that are left. -/
def OwesTelemetry (i : ℕ) : Stage → Prop
  | .telemetryTaking jobs => i ∈ jobs
  | .forwardsListing | .forwardsTaking _ | .forwardsCanceling _ | .finished => False
  | _ => True

/-- The terminals or jobs that are left. -/
def OwesChild (i : ℕ) : Kind → Stage → Prop
  | .terminal => OwesTerminal i
  | .telemetry => OwesTelemetry i

/-- The sessions that are left. -/
def OwesSession (i : ℕ) : Stage → Prop
  | .registered | .terminalsListing | .terminalsRemoving _ | .sftpWaiting | .sftpListing | .aborted
  | .drained => True
  | .sftpTaking sessions => i ∈ sessions
  | _ => False

/-- A channel that is being opened will still be found: the lock of the connection was not given
to the teardown. -/
def BeforeSftp : Stage → Prop
  | .registered | .terminalsListing | .terminalsRemoving _ | .sftpWaiting | .aborted
  | .drained => True
  | _ => False

/-- The forwards that are left. -/
def OwesForward (i : ℕ) : Stage → Prop
  | .forwardsTaking forwards => i ∈ forwards
  | .forwardsCanceling _ | .finished => False
  | _ => True

/-- The transfers of sessions that were taken. -/
def OwesTransfer (sftpId k : ℕ) : Stage → Prop
  | .transfersListing sessions => sftpId ∈ sessions
  | .transfersCanceling _ transfers => k ∈ transfers
  | .aborted => True
  | _ => False

end Stage

/-- The transfers that a `close_sftp` cancels. -/
def Sftp.ClosePhase.OwesTransfer (k : ℕ) : Sftp.ClosePhase → Prop
  | .removed | .listing => True
  | .canceling transfers => k ∈ transfers
  | .begun | .returned _ => False

/-- The transfers that `close_all_orphans` cancels. -/
def Shutdown.OwesTransfer (k : ℕ) : Shutdown → Prop
  | .transfersListing _ => True
  | .transfersCanceling _ transfers => k ∈ transfers
  | _ => False

namespace Runtime

/-- Nothing is left that belongs to a connection. -/
structure Clean (s : Runtime) (c : ℕ) : Prop where
  children : ∀ (i : ℕ) (ch : Child), s.children[i]? = some ch → ch.connectionId = c →
    ch.listed = false
  sessions : ∀ (i : ℕ) (o : Open), s.sftp.opens[i]? = some o → o.connectionId = c →
    o.listed = false
  transfers : ∀ (k : ℕ) (t : Transfer) (o : Open), s.sftp.transfers[k]? = some t →
    s.sftp.opens[t.sftpId]? = some o → o.connectionId = c → t.active = false
  forwards : ∀ (i : ℕ) (f : Start), s.forwards.starts[i]? = some f → f.request.connectionId = c →
    f.record = none

/-- A transfer of a session that has left the table is about to be canceled. -/
def OwesTransfer (s : Runtime) (k sftpId c : ℕ) : Prop :=
  (∃ (j : ℕ) (cl : Close), s.sftp.closes[j]? = some cl ∧ cl.sftpId = sftpId ∧
    cl.phase.OwesTransfer k) ∨
  (∃ r, s.connections[c]? = some r ∧ r.stage.OwesTransfer sftpId k) ∨ s.shutdown.OwesTransfer k

/-- What is in the tables is owed by the teardown of its connection. -/
structure Owed (s : Runtime) : Prop where
  children : ∀ (i : ℕ) (ch : Child) (r : ConnectionRecord), s.children[i]? = some ch →
    ch.listed = true → s.connections[ch.connectionId]? = some r → r.stage.OwesChild i ch.kind
  sessions : ∀ (i : ℕ) (o : Open) (r : ConnectionRecord), s.sftp.opens[i]? = some o →
    o.listed = true → s.connections[o.connectionId]? = some r → r.stage.OwesSession i
  opening : ∀ (i : ℕ) (o : Open) (r : ConnectionRecord), s.sftp.opens[i]? = some o →
    o.phase = .opening ∨ o.phase = .opened → s.connections[o.connectionId]? = some r →
    r.stage.BeforeSftp
  waits : ∀ (c : ℕ) (r : ConnectionRecord), s.connections[c]? = some r → r.stage = .sftpWaiting →
    s.sftp.locks.Holds (.teardown c) c
  takes : ∀ (c : ℕ) (r : ConnectionRecord) (sessions : List ℕ), s.connections[c]? = some r →
    r.stage = .sftpTaking sessions →
    ∀ i ∈ sessions, ∃ o, s.sftp.opens[i]? = some o ∧ o.connectionId = c
  transfers : ∀ (k : ℕ) (t : Transfer), s.sftp.transfers[k]? = some t → t.active = true →
    ∃ o, s.sftp.opens[t.sftpId]? = some o ∧
      (o.listed = true ∨ s.OwesTransfer k t.sftpId o.connectionId)
  forwards : ∀ (i : ℕ) (f : Start) (r : ConnectionRecord), s.forwards.starts[i]? = some f →
    f.record.isSome = true → s.connections[f.request.connectionId]? = some r →
    r.stage.OwesForward i
  /-- What a stop is about is a forward of a registered connection. -/
  reading : ∀ (j : ℕ) (t : Stop) (x : Taken) (f : Start), s.forwards.stops[j]? = some t →
    t.phase.reading = some x → s.forwards.starts[x.forward]? = some f →
    (s.connection f.request.connectionId).isSome = true

/-! ### The lists of a teardown -/

theorem mem_childrenOf {children : List Child} {kind : Kind} {c i : ℕ} :
    i ∈ Children.childrenOf children kind c ↔
      ∃ ch, children[i]? = some ch ∧ (ch.listed = true ∧ ch.kind = kind) ∧ ch.connectionId = c := by
  simp only [Children.childrenOf, List.mem_filter, List.mem_range, Option.any_eq_true,
    Bool.and_eq_true, decide_eq_true_eq]
  constructor
  · exact fun h => h.2
  · rintro ⟨ch, hch, hrest⟩
    exact ⟨(List.getElem?_eq_some_iff.mp hch).1, ch, hch, hrest⟩

theorem mem_sessionsOf {sftp : Sftp.State} {c i : ℕ} :
    i ∈ sftp.sessionsOf c ↔
      ∃ o, sftp.opens[i]? = some o ∧ o.listed = true ∧ o.connectionId = c := by
  simp only [Sftp.State.sessionsOf, List.mem_filter, List.mem_range, Option.any_eq_true,
    Bool.and_eq_true, decide_eq_true_eq]
  constructor
  · exact fun h => h.2
  · rintro ⟨o, ho, hrest⟩
    exact ⟨(List.getElem?_eq_some_iff.mp ho).1, o, ho, hrest⟩

theorem mem_transfersOf {sftp : Sftp.State} {sessions : List ℕ} {k : ℕ} :
    k ∈ sftp.transfersOf sessions ↔
      ∃ t, sftp.transfers[k]? = some t ∧ t.active = true ∧ t.sftpId ∈ sessions := by
  simp only [Sftp.State.transfersOf, List.mem_filter, List.mem_range, Option.any_eq_true,
    Bool.and_eq_true, List.contains_iff_mem]
  constructor
  · exact fun h => h.2
  · rintro ⟨t, ht, hrest⟩
    exact ⟨(List.getElem?_eq_some_iff.mp ht).1, t, ht, hrest⟩

variable {s s' : Runtime} {event : Event}

theorem stage_of_registered {c : ℕ} {r : ConnectionRecord} (hr : s.connections[c]? = some r)
    (h : (s.connection c).isSome = true) : r.stage = .registered := by
  obtain ⟨r', hr', hstage⟩ := connection_isSome.mp h
  obtain rfl := Option.some.inj (hr.symm.trans hr')
  exact hstage

/-! ### One table after the other -/

/-- **Terminals and telemetry jobs.** -/
theorem Owed.child_step (h : s.Owed) (hstep : machine.step s event = some s') (i : ℕ) (ch' : Child)
    (r' : ConnectionRecord) (hch' : s'.children[i]? = some ch') (hl : ch'.listed = true)
    (hr' : s'.connections[ch'.connectionId]? = some r') : r'.stage.OwesChild i ch'.kind := by
  have hfree : r'.stage = .registered → r'.stage.OwesChild i ch'.kind := by
    intro hstage
    rw [hstage]
    cases ch'.kind <;> trivial
  rcases child_of_step hstep hch' hl with ⟨ch, hch, hlisted, hkind, hc, hnot⟩ | hregistered
  · rcases stageMove_of_step hstep hr' with ⟨r, hr, hmove⟩ | ⟨_, hstage, _⟩
    · have hold := h.children i ch r hch hlisted (by rw [hc]; exact hr)
      rw [hkind] at hold
      cases hmove with
      | same => exact hold
      | begin => cases ch'.kind <;> trivial
      | drained => cases ch'.kind <;> trivial
      | teardown action _ he =>
        have hnot := hnot _ action rfl
        cases hk : ch'.kind with
        | terminal =>
          rw [hk] at hold hkind
          cases action with
          | listTerminals => exact mem_childrenOf.mpr ⟨ch, hch, ⟨hlisted, hkind⟩, hc⟩
          | removeTerminal terminal rest =>
            rw [show r.stage = .terminalsRemoving (terminal :: rest) from he] at hold
            rcases List.mem_cons.mp hold with rfl | hrest
            · exact absurd List.mem_cons_self hnot
            · exact hrest
          | getSftpLock =>
            rw [show r.stage = .terminalsRemoving [] from he] at hold
            cases hold
          | abort => trivial
          | acquireSftp =>
            rw [he.1] at hold
            exact hold
          | _ =>
            unfold TeardownEnabled at he
            rw [he] at hold
            exact hold
        | telemetry =>
          rw [hk] at hold hkind
          cases action with
          | listTelemetry => exact mem_childrenOf.mpr ⟨ch, hch, ⟨hlisted, hkind⟩, hc⟩
          | takeTelemetry jobs =>
            rw [show r.stage = .telemetryTaking jobs from he] at hold
            exact absurd hold hnot
          | listForwards =>
            rw [show r.stage = .forwardsListing from he] at hold
            exact hold
          | takeForwards forwards =>
            rw [show r.stage = .forwardsTaking forwards from he] at hold
            exact hold
          | cancelForward forward record rest =>
            rw [show r.stage = .forwardsCanceling _ from he] at hold
            exact hold
          | finish =>
            rw [show r.stage = .forwardsCanceling [] from he] at hold
            exact hold
          | _ => trivial
    · exact hfree hstage
  · exact hfree (stage_of_registered hr' hregistered)

/-- **Sessions.** -/
theorem Owed.session_step (h : s.Owed) (hwf : Sftp.Wf s) (hstep : machine.step s event = some s')
    (i : ℕ) (o' : Open) (r' : ConnectionRecord) (ho' : s'.sftp.opens[i]? = some o')
    (hl : o'.listed = true) (hr' : s'.connections[o'.connectionId]? = some r') :
    r'.stage.OwesSession i := by
  rcases session_of_step hwf hstep ho' hl with ⟨o, ho, hlisted, hc, hnot⟩ | ⟨hsame, o, ho, hp, hc⟩
  · rcases stageMove_of_step hstep hr' with ⟨r, hr, hmove⟩ | ⟨_, hstage, _⟩
    · have hold := h.sessions i o r ho hlisted (by rw [hc]; exact hr)
      cases hmove with
      | same => exact hold
      | begin => trivial
      | drained => trivial
      | teardown action _ he =>
        have hnot := hnot _ action rfl
        cases action with
        | listSftp => exact mem_sessionsOf.mpr ⟨o, ho, hlisted, hc⟩
        | takeSftp sessions =>
          rw [show r.stage = .sftpTaking sessions from he] at hold
          exact absurd hold hnot
        | listTerminals => trivial
        | removeTerminal terminal rest => trivial
        | getSftpLock => trivial
        | acquireSftp => trivial
        | abort => trivial
        | _ =>
          unfold TeardownEnabled at he
          rw [he] at hold
          exact hold
    · rw [hstage]
      trivial
  · -- The call holds the lock of the connection, so the teardown will find its record.
    rw [hsame] at hr'
    have hbefore := h.opening i o r' ho (.inr hp) (by rw [hc]; exact hr')
    generalize r'.stage = stage at hbefore ⊢
    cases stage <;> trivial

/-- **Channels that are being opened.**  The teardown gets the lock of the connection when no
call has it. -/
theorem Owed.opening_step (h : s.Owed) (hwf : Sftp.Wf s) (hunique : s.sftp.Unique)
    (hstep : machine.step s event = some s') (i : ℕ) (o' : Open) (r' : ConnectionRecord)
    (ho' : s'.sftp.opens[i]? = some o') (hp : o'.phase = .opening ∨ o'.phase = .opened)
    (hr' : s'.connections[o'.connectionId]? = some r') : r'.stage.BeforeSftp := by
  rcases opening_of_step hwf hstep ho' hp with ⟨o, ho, hphase, hc⟩ | hregistered
  · rcases stageMove_of_step hstep hr' with ⟨r, hr, hmove⟩ | ⟨_, hstage, _⟩
    · have hold := h.opening i o r ho hphase (by rw [hc]; exact hr)
      cases hmove with
      | same => exact hold
      | begin => trivial
      | drained => trivial
      | teardown action _ he =>
        cases action with
        | acquireSftp =>
          have hguarding : Sftp.insertion.guarding o = true := by
            rw [show Sftp.insertion.guarding o = o.phase.guarding from rfl]
            rcases hphase with hp | hp
            all_goals
              rw [hp]
              rfl
          have hguard := hunique.guards i o _ ho rfl hguarding
          rw [hc] at hguard
          have hown := (h.waits _ r hr he.1).lock he.2
          have hcaller := KeyedLocks.guards_unique (hguard.lock _) hown
          cases hcaller
        | listTerminals => trivial
        | removeTerminal terminal rest => trivial
        | getSftpLock => trivial
        | abort => trivial
        | _ =>
          unfold TeardownEnabled at he
          rw [he] at hold
          exact hold
    · rw [hstage]
      trivial
  · rw [stage_of_registered hr' hregistered]
    trivial

/-- **Forwards.**  A record is put back while its connection is registered. -/
theorem Owed.forward_step (h : s.Owed) (hwf : s.forwards.Wf)
    (hstep : machine.step s event = some s') (i : ℕ) (f' : Start)
    (r' : ConnectionRecord) (hf' : s'.forwards.starts[i]? = some f')
    (hrecord : f'.record.isSome = true)
    (hr' : s'.connections[f'.request.connectionId]? = some r') : r'.stage.OwesForward i := by
  rcases record_of_step hwf hstep hf' hrecord with
    ⟨f, hf, hsome, hrequest, hnot⟩ | hregistered | ⟨j, x, f, rfl, rfl, hf, hrequest⟩
  · rcases stageMove_of_step hstep hr' with ⟨r, hr, hmove⟩ | ⟨_, hstage, _⟩
    · have hold := h.forwards i f r hf hsome (by rw [hrequest]; exact hr)
      cases hmove with
      | same => exact hold
      | begin => trivial
      | drained => trivial
      | teardown action _ he =>
        have hnot := hnot _ action rfl
        cases action with
        | listForwards => exact mem_forwardsOf.mpr ⟨f, hf, hsome, by rw [hrequest]⟩
        | takeForwards forwards =>
          rw [show r.stage = .forwardsTaking forwards from he] at hold
          exact absurd hold hnot
        | cancelForward forward record rest =>
          rw [show r.stage = .forwardsCanceling _ from he] at hold
          exact hold
        | finish =>
          rw [show r.stage = .forwardsCanceling [] from he] at hold
          exact hold
        | _ => trivial
    · rw [hstage]
      trivial
  · rw [stage_of_registered hr' hregistered]
    trivial
  · obtain ⟨forwards, hcall, rfl⟩ := Option.map_eq_some_iff.mp hstep
    obtain ⟨t, ht, he, -⟩ := Pool.act_eq_some.mp hcall
    have hreading : t.phase.reading = some x := by
      rw [show t.phase = .restoring x from he]
      rfl
    have hregistered := h.reading j t x f ht hreading hf
    rw [hrequest] at hregistered
    rw [stage_of_registered hr' hregistered]
    trivial

/-- **What the stops read.**  The connection does not leave the registry meanwhile. -/
theorem Owed.reading_step (h : s.Owed) (hwf : s.forwards.Wf)
    (hstep : machine.step s event = some s') (j : ℕ) (t' : Stop) (x : Taken) (f' : Start)
    (ht' : s'.forwards.stops[j]? = some t') (hx : t'.phase.reading = some x)
    (hf' : s'.forwards.starts[x.forward]? = some f') :
    (s'.connection f'.request.connectionId).isSome = true := by
  have hgoing := Forward.going_of_step hwf hstep
  -- The forward is the one that it was.
  have hback : ∀ f, s.forwards.starts[x.forward]? = some f → f'.request = f.request := by
    intro f hf
    obtain ⟨g, hg, hgoes⟩ := hgoing.forth _ f hf
    obtain rfl := Option.some.inj (hf'.symm.trans hg)
    exact hgoes.request
  rcases Forward.reading_of_step hwf hstep ht' hx with ⟨t, ht, hold⟩ | ⟨hsame, f, hf, hfound⟩
  · have hread : s.forwards.registryFree = false := by
      refine List.all_eq_false.mpr ⟨t, List.mem_of_getElem? ht, ?_⟩
      rw [hold]
      nofun
    obtain ⟨f, hf, _⟩ := hwf.taken j t x ht (Forward.holding_of_reading hold)
    rw [hback f hf]
    exact connection_stays hstep hread (h.reading j t x f ht hold hf)
  · rw [hback f hf, connection, hsame]
    exact hfound

/-! ### The lock of a connection, and what its teardown takes -/

/-- A teardown keeps its lock while calls of `open_sftp` go on. -/
theorem afterOpen_holds (sftp : Sftp.State) (env : Surroundings) (i : ℕ) (o : Open)
    (action : Sftp.OpenAction) {c k : ℕ} (hold : sftp.locks.Holds (.teardown c) k) :
    (sftp.afterOpen env i o action).locks.Holds (.teardown c) k := by
  have hdrop : (sftp.locks.drop (.opener i)).Holds (.teardown c) k :=
    KeyedLocks.holds_drop.mpr ⟨nofun, hold⟩
  cases action with
  | getLock => exact KeyedLocks.holds_get.mpr (.inr hold)
  | acquire => exact KeyedLocks.holds_lock.mpr hold
  | find =>
    simp only [Sftp.State.afterOpen]
    split
    · exact hdrop
    · exact hold
  | look =>
    simp only [Sftp.State.afterOpen]
    split
    · exact hold
    · exact hdrop
  | «open» ok =>
    simp only [Sftp.State.afterOpen]
    split_ifs
    · exact hold
    · exact hdrop
  | insert => exact hold
  | signal =>
    simp only [Sftp.State.afterOpen]
    split_ifs
    · exact hdrop
    · exact hdrop
  | dropCaller => exact hdrop

/-- A teardown that waits for the lock of its connection has asked for it. -/
theorem Owed.waits_step (h : s.Owed) (hwf : Sftp.Wf s) (hstep : machine.step s event = some s')
    (c : ℕ) (r' : ConnectionRecord) (hr' : s'.connections[c]? = some r')
    (hstage : r'.stage = .sftpWaiting) : s'.sftp.locks.Holds (.teardown c) c := by
  by_cases hown : ∃ action, event = .teardown c action
  · obtain ⟨action, rfl⟩ := hown
    have hnext := stage_of_teardown hstep hr'
    rw [hstage] at hnext
    obtain ⟨_, _, _, rfl⟩ := teardown_of_step hstep
    cases action with
    | getSftpLock => exact KeyedLocks.holds_get.mpr (.inl ⟨rfl, rfl⟩)
    | _ => cases hnext
  · have hne : ∀ action, event ≠ .teardown c action := fun action heq => hown ⟨action, heq⟩
    have hr := stage_back hstep hr' hne (by rw [hstage]; exact ⟨nofun, nofun, nofun⟩)
    have hold := h.waits c r' hr hstage
    cases Sftp.opensMove_of_moved hwf (Sftp.moved_of_step hstep) with
    | fades _ hlocks =>
      refine hlocks.holds (fun c' action heq hcaller => ?_) hold
      obtain rfl := Sftp.Caller.teardown.inj hcaller
      exact hne action heq
    | add c' heq =>
      rw [heq]
      exact hold
    | own i o action _ _ _ heq =>
      rw [heq]
      exact afterOpen_holds _ _ i o action hold

/-- The sessions that a teardown takes are those of its connection. -/
theorem Owed.takes_step (h : s.Owed) (hwf : Sftp.Wf s) (hstep : machine.step s event = some s')
    (c : ℕ) (r' : ConnectionRecord) (sessions : List ℕ) (hr' : s'.connections[c]? = some r')
    (hstage : r'.stage = .sftpTaking sessions) (i : ℕ) (hi : i ∈ sessions) :
    ∃ o', s'.sftp.opens[i]? = some o' ∧ o'.connectionId = c := by
  have hforth : (∃ o, s.sftp.opens[i]? = some o ∧ o.connectionId = c) →
      ∃ o', s'.sftp.opens[i]? = some o' ∧ o'.connectionId = c := by
    rintro ⟨o, ho, hc⟩
    obtain ⟨o', ho', hc'⟩ := open_forth hwf hstep ho
    exact ⟨o', ho', hc'.trans hc⟩
  by_cases hown : ∃ action, event = .teardown c action
  · obtain ⟨action, rfl⟩ := hown
    have hnext := stage_of_teardown hstep hr'
    rw [hstage] at hnext
    cases action with
    | listSftp =>
      obtain rfl := Stage.sftpTaking.inj hnext
      obtain ⟨o, ho, _, hc⟩ := mem_sessionsOf.mp hi
      exact hforth ⟨o, ho, hc⟩
    | _ => cases hnext
  · have hne : ∀ action, event ≠ .teardown c action := fun action heq => hown ⟨action, heq⟩
    have hr := stage_back hstep hr' hne (by rw [hstage]; exact ⟨nofun, nofun, nofun⟩)
    exact hforth (h.takes c r' sessions hr hstage i hi)

/-! ### Transfers -/

/-- The teardown of a connection goes on to cancel a transfer. -/
theorem owesTransfer_next {c k sftpId : ℕ} {stage : Stage} {action : TeardownAction} {t : Transfer}
    (he : s.TeardownEnabled c stage action) (hold : stage.OwesTransfer sftpId k)
    (ht : s.sftp.transfers[k]? = some t) (ha : t.active = true) (hid : t.sftpId = sftpId)
    (hnot : (Event.teardown c action).cancels ≠ some k) :
    (s.nextStage c action).OwesTransfer sftpId k := by
  cases action with
  | listTransfers sessions =>
    rw [show stage = .transfersListing sessions from he] at hold
    exact mem_transfersOf.mpr ⟨t, ht, ha, hid ▸ hold⟩
  | cancelTransfer sessions transfer rest =>
    rw [show stage = .transfersCanceling sessions (transfer :: rest) from he] at hold
    rcases List.mem_cons.mp hold with rfl | hrest
    · exact absurd rfl hnot
    · exact hrest
  | transfersCanceled sessions =>
    rw [show stage = .transfersCanceling sessions [] from he] at hold
    cases hold
  | abort => trivial
  | acquireSftp =>
    rw [he.1] at hold
    exact hold.elim
  | _ =>
    unfold TeardownEnabled at he
    rw [he] at hold
    exact hold.elim

/-- A `close_sftp` goes on to cancel a transfer. -/
theorem owesTransfer_close {j k : ℕ} {cl : Close} {action : Sftp.CloseAction} {t : Transfer}
    (hcl : s.sftp.closes[j]? = some cl) (he : cl.Enabled action) (hold : cl.phase.OwesTransfer k)
    (ht : s.sftp.transfers[k]? = some t) (ha : t.active = true) (hid : t.sftpId = cl.sftpId)
    (hnot : (Event.sftp (.closeAct j action)).cancels ≠ some k) :
    ∃ cl', (s.sftp.afterClose j cl action).closes[j]? = some cl' ∧ cl'.sftpId = cl.sftpId ∧
      cl'.phase.OwesTransfer k := by
  cases action with
  | remove =>
    rw [show cl.phase = .begun from he] at hold
    exact hold.elim
  | beginClose =>
    exact ⟨{ cl with phase := .listing }, Pool.getElem?_set_self hcl, rfl, trivial⟩
  | list =>
    refine ⟨{ cl with phase := .canceling (s.sftp.transfersOf [cl.sftpId]) },
      Pool.getElem?_set_self hcl, rfl, ?_⟩
    exact mem_transfersOf.mpr ⟨t, ht, ha, List.mem_singleton.mpr hid⟩
  | cancel transfer rest =>
    rw [show cl.phase = .canceling (transfer :: rest) from he] at hold
    refine ⟨{ cl with phase := .canceling rest }, Pool.getElem?_set_self hcl, rfl, ?_⟩
    rcases List.mem_cons.mp hold with rfl | hrest
    · exact absurd rfl hnot
    · exact hrest
  | close =>
    rw [show cl.phase = .canceling [] from he] at hold
    cases hold

/-- `close_all_orphans` goes on to cancel a transfer. -/
theorem owesTransfer_shutdown {k : ℕ} {action : ShutdownAction} {t : Transfer}
    (he : s.ShutdownEnabled action) (hold : s.shutdown.OwesTransfer k)
    (ht : s.sftp.transfers[k]? = some t) (ha : t.active = true)
    (hnot : (Event.shutdown action).cancels ≠ some k) :
    (s.afterShutdown action).shutdown.OwesTransfer k := by
  cases action with
  | listTransfers sessions =>
    refine List.mem_filter.mpr ⟨List.mem_range.mpr (List.getElem?_eq_some_iff.mp ht).1, ?_⟩
    rw [ht]
    exact ha
  | cancelTransfer sessions transfer rest =>
    rw [show s.shutdown = .transfersCanceling sessions (transfer :: rest) from he] at hold
    rcases List.mem_cons.mp hold with rfl | hrest
    · exact absurd rfl hnot
    · exact hrest
  | transfersCanceled sessions =>
    rw [show s.shutdown = .transfersCanceling sessions [] from he] at hold
    cases hold
  | begin =>
    rw [he.1] at hold
    exact hold.elim
  | close connection rest =>
    rw [he.1] at hold
    exact hold.elim
  | resume connection rest =>
    rw [he.1] at hold
    exact hold.elim
  | drainConnections =>
    rw [he.1] at hold
    exact hold.elim
  | _ =>
    unfold ShutdownEnabled at he
    rw [he] at hold
    exact hold.elim

theorem owesTransfer_step (hwf : Sftp.Wf s) (hstep : machine.step s event = some s')
    {k c : ℕ} {t : Transfer} (ht : s.sftp.transfers[k]? = some t) (ha : t.active = true)
    (hnot : event.cancels ≠ some k) (h : s.OwesTransfer k t.sftpId c) :
    s'.OwesTransfer k t.sftpId c := by
  rcases h with ⟨j, cl, hcl, hid, hold⟩ | ⟨r, hr, hold⟩ | hold
  · rcases close_forth hwf hstep hcl with hsame | ⟨action, rfl, he, heq⟩
    · exact .inl ⟨j, cl, hsame, hid, hold⟩
    · obtain ⟨cl', hcl', hid', howes⟩ :=
        owesTransfer_close hcl he hold ht ha hid.symm hnot
      rw [← heq] at hcl'
      exact .inl ⟨j, cl', hcl', hid'.trans hid, howes⟩
  · obtain ⟨r', hr', _⟩ := connections_of_step hstep hr
    refine .inr (.inl ⟨r', hr', ?_⟩)
    rcases stageMove_of_step hstep hr' with ⟨r₀, hr₀, hmove⟩ | ⟨hnone, _⟩
    · obtain rfl := Option.some.inj (hr.symm.trans hr₀)
      cases hmove with
      | same => exact hold
      | begin _ _ hregistered =>
        rw [hregistered] at hold
        exact hold.elim
      | teardown action _ he => exact owesTransfer_next he hold ht ha rfl hnot
      | drained _ hregistered =>
        rw [hregistered] at hold
        exact hold.elim
    · rw [hnone] at hr
      cases hr
  · refine .inr (.inr ?_)
    rcases shutdown_of_step hstep with hsame | ⟨action, rfl, he, rfl⟩
    · rw [hsame]
      exact hold
    · exact owesTransfer_shutdown he hold ht ha hnot

/-- A session that leaves the table is taken by a call that cancels its transfers. -/
theorem Owed.owesTransfer_of_unlisted (h : s.Owed) (hwf : Sftp.Wf s)
    (hstep : machine.step s event = some s') {k i : ℕ} {o o' : Open}
    (ho : s.sftp.opens[i]? = some o) (hl : o.listed = true) (ho' : s'.sftp.opens[i]? = some o')
    (hl' : o'.listed = false) : s'.OwesTransfer k i o.connectionId := by
  rcases unlisted_of_step hwf hstep ho hl ho' hl' with
    ⟨j, cl, rfl, hcl, rfl⟩ | ⟨c, sessions, rfl, hmem⟩ | rfl
  · obtain ⟨_, hsftp⟩ := close_of_step hstep hcl
    refine .inl ⟨j, { cl with phase := .removed }, ?_, rfl, trivial⟩
    rw [hsftp]
    simp only [Sftp.State.afterClose, ho, Option.any_some, hl, if_pos]
    exact Pool.getElem?_set_self hcl
  · obtain ⟨r, hr, he, rfl⟩ := teardown_of_step hstep
    obtain ⟨p, hp, hc⟩ := h.takes c r sessions hr he i hmem
    obtain rfl := Option.some.inj (ho.symm.trans hp)
    obtain ⟨r', hr', _⟩ := connections_of_step hstep hr
    refine .inr (.inl ⟨r', by rw [hc]; exact hr', ?_⟩)
    rw [stage_of_teardown hstep hr']
    exact Sftp.mem_presentSessions.mpr ⟨hmem, o, ho, hl⟩
  · simp only [machine, step] at hstep
    split_ifs at hstep
    obtain rfl := Option.some.inj hstep
    exact .inr (.inr trivial)

/-- **Transfers.** -/
theorem Owed.transfer_step (h : s.Owed) (hwf : Sftp.Wf s) (hstep : machine.step s event = some s')
    (k : ℕ) (t' : Transfer) (ht' : s'.sftp.transfers[k]? = some t') (ha : t'.active = true) :
    ∃ o', s'.sftp.opens[t'.sftpId]? = some o' ∧
      (o'.listed = true ∨ s'.OwesTransfer k t'.sftpId o'.connectionId) := by
  rcases active_of_step hwf hstep ht' ha with ⟨t, ht, hactive, hid, hnot⟩ | ⟨hlive, hopens⟩
  · obtain ⟨o, ho, hold⟩ := h.transfers k t ht hactive
    obtain ⟨o', ho', hc⟩ := open_forth hwf hstep ho
    rw [← hid]
    refine ⟨o', ho', ?_⟩
    rw [hc]
    rcases hold with hl | howes
    · by_cases hl' : o'.listed = true
      · exact .inl hl'
      · rw [Bool.not_eq_true] at hl'
        exact .inr (h.owesTransfer_of_unlisted hwf hstep ho hl ho' hl')
    · exact .inr (owesTransfer_step hwf hstep ht hactive hnot howes)
  · obtain ⟨o, ho, hl⟩ := Option.any_eq_true _ _ |>.mp hlive
    refine ⟨o, by rw [hopens]; exact ho, .inl ?_⟩
    exact (Bool.and_eq_true_iff.mp hl).1

/-! ### Every run -/

/-- What every run keeps. -/
structure Tidy (s : Runtime) : Prop where
  sftp : Sftp.Wf s
  unique : s.sftp.Unique
  forwards : s.forwards.Wf
  owed : s.Owed

/-- **A step keeps what is owed.** -/
theorem Tidy.step (h : s.Tidy) (hstep : machine.step s event = some s') : s'.Tidy where
  sftp := h.sftp.step hstep
  unique := h.unique.step h.sftp hstep
  forwards := (Forward.moved_of_step hstep).wf h.forwards
  owed :=
    { children := h.owed.child_step hstep
      sessions := h.owed.session_step h.sftp hstep
      opening := h.owed.opening_step h.sftp h.unique hstep
      waits := h.owed.waits_step h.sftp hstep
      takes := h.owed.takes_step h.sftp hstep
      transfers := h.owed.transfer_step h.sftp hstep
      forwards := h.owed.forward_step h.forwards hstep
      reading := h.owed.reading_step h.forwards hstep }

theorem tidy_init : machine.init.Tidy where
  sftp := Sftp.wf_init
  unique := GuardedInsert.unique_nil
  forwards := Forward.wf_init
  owed :=
    { children := by
        intro i ch r hch
        cases hch
      sessions := by
        intro i o r ho
        cases ho
      opening := by
        intro i o r ho
        cases ho
      waits := by
        intro c r hr
        cases hr
      takes := by
        intro c r sessions hr
        cases hr
      transfers := by
        intro k t ht
        cases ht
      forwards := by
        intro i f r hf
        cases hf
      reading := by
        intro j t x f ht
        cases ht }

/-- Every call has returned, or its caller is gone. -/
def settled (s : Runtime) : Bool :=
  s.children.all (fun ch => ch.phase = .returned || ch.phase = .dropped) &&
    s.sftp.opens.all (fun o => !o.inGate) && s.sftp.closes.all (fun cl => !cl.phase.closing) &&
    s.sftp.transfers.all (fun t => t.phase = .returned || t.phase = .dropped) &&
    s.forwards.starts.all (fun f => !f.waits && f.phase ≠ .published) &&
    s.forwards.stops.all (fun t => !t.waits) && s.shutdown = .idle

/-- What a finished teardown owes is nothing, once the calls that cancel transfers are over. -/
theorem Owed.clean (h : s.Owed) (hclosed : s.sftp.closes.all (fun cl => !cl.phase.closing) = true)
    (hidle : s.shutdown = .idle) {c : ℕ} {r : ConnectionRecord} (hr : s.connections[c]? = some r)
    (hfinished : r.stage = .finished) : s.Clean c := by
  have hsession : ∀ (i : ℕ) (o : Open), s.sftp.opens[i]? = some o → o.connectionId = c →
      o.listed = false := by
    rintro i o ho rfl
    rw [← Bool.not_eq_true]
    intro hl
    have howes := h.sessions i o r ho hl hr
    rw [hfinished] at howes
    exact howes
  constructor
  · rintro i ch hch rfl
    rw [← Bool.not_eq_true]
    intro hl
    have howes := h.children i ch r hch hl hr
    rw [hfinished] at howes
    cases hk : ch.kind with
    | terminal =>
      rw [hk] at howes
      exact howes
    | telemetry =>
      rw [hk] at howes
      exact howes
  · exact hsession
  · rintro k t o ht ho rfl
    rw [← Bool.not_eq_true]
    intro ha
    obtain ⟨p, hp, hl | howes⟩ := h.transfers k t ht ha
    · obtain rfl := Option.some.inj (ho.symm.trans hp)
      rw [hsession _ o ho rfl] at hl
      cases hl
    · obtain rfl := Option.some.inj (ho.symm.trans hp)
      rcases howes with ⟨j, cl, hcl, _, howes⟩ | ⟨r', hr', howes⟩ | howes
      · have hnot := List.all_eq_true.mp hclosed cl (List.mem_of_getElem? hcl)
        generalize cl.phase = phase at hnot howes
        cases phase <;> first | exact howes | cases hnot
      · obtain rfl := Option.some.inj (hr.symm.trans hr')
        rw [hfinished] at howes
        exact howes
      · rw [hidle] at howes
        exact howes
  · rintro i f hf rfl
    rw [← Option.not_isSome_iff_eq_none]
    intro hsome
    have howes := h.forwards i f r hf hsome hr
    rw [hfinished] at howes
    exact howes

/-- **A finished teardown has left nothing.**  Once the calls have returned, no terminal,
telemetry job, session, active transfer or forward belongs to a connection whose teardown has
finished. -/
theorem clean_of_finished {events : List Event} (h : machine.run events = some s)
    (hsettled : s.settled = true) {c : ℕ} {r : ConnectionRecord}
    (hr : s.connections[c]? = some r) (hfinished : r.stage = .finished) : s.Clean c := by
  have htidy : s.Tidy :=
    machine.run_invariant tidy_init (fun _ _ _ hs hstep => hs.step hstep) h
  simp only [settled, Bool.and_eq_true, decide_eq_true_eq] at hsettled
  exact htidy.owed.clean hsettled.1.1.1.1.2 hsettled.2 hr hfinished

/-- A remote forward without a tunnel. -/
def remoteRequest : Forward.Request where
  forwardType := .remoteForward
  tunnelId := none
  sessionId := 1
  connectionId := 0
  bindHost := ['h']
  bindPort := 80

/-- The forward has started, and a stop has removed its record and asks the server. -/
def startAndStop : List Event :=
  [.connect ⟨1, .desktop⟩, .forward (.start remoteRequest), .forward (.startAct 0 .enter),
    .forward (.startAct 0 .getAddressLock), .forward (.startAct 0 .acquireAddress),
    .forward (.startAct 0 .compare), .forward (.startAct 0 .insertRoute),
    .forward (.startAct 0 (.reply (some 0))), .forward (.startAct 0 (.assign 80)),
    .forward (.startAct 0 (.registerRemote 80)), .forward (.stop (.one 0)),
    .forward (.stopAct 0 (.readTunnel 0)), .forward (.stopAct 0 (.take 0 [])),
    .forward (.stopAct 0 (.getAddressLock ⟨0, Forward.State.running 80, []⟩)),
    .forward (.stopAct 0 (.acquireAddress ⟨0, Forward.State.running 80, []⟩)),
    .forward (.stopAct 0 (.look ⟨0, Forward.State.running 80, []⟩))]

/-- The server refuses, and the record is put back. -/
def putBack : List Event :=
  [.forward (.stopAct 0 (.cancelReply ⟨0, Forward.State.running 80, []⟩ false)),
    .forward (.stopAct 0 (.restore ⟨0, Forward.State.running 80, []⟩))]

/-- The connection is torn down; `forwards` are what the teardown finds. -/
def tearDown (forwards : List (ℕ × ForwardRecord)) : List Event :=
  [.disconnect 0, .teardown 0 .listTerminals, .teardown 0 .getSftpLock, .teardown 0 .acquireSftp,
    .teardown 0 .listSftp, .teardown 0 (.takeSftp []), .teardown 0 (.listTransfers []),
    .teardown 0 (.transfersCanceled []), .teardown 0 .listTelemetry,
    .teardown 0 (.takeTelemetry []), .teardown 0 .listForwards,
    .teardown 0 (.takeForwards (forwards.map (·.1)))] ++
  forwards.map (fun x => .teardown 0 (.cancelForward x.1 x.2 [])) ++ [.teardown 0 .finish]

/-- The record is put back before the teardown, which removes it. -/
theorem clean_of_finished_putBack :
    ∃ s, machine.run (startAndStop ++ putBack ++
      tearDown [(0, { Forward.State.running 80 with status := .failed })]) = some s ∧
        s.Clean 0 := by
  have hview : ((machine.run (startAndStop ++ putBack ++
      tearDown [(0, { Forward.State.running 80 with status := .failed })])).map fun s =>
        (s.settled, s.connections)) = some (true, [⟨⟨1, .desktop⟩, .finished⟩]) := by
    decide +kernel
  obtain ⟨s, hs, hview⟩ := Option.map_eq_some_iff.mp hview
  obtain ⟨hsettled, hconnections⟩ := Prod.mk.inj hview
  exact ⟨s, hs, clean_of_finished hs hsettled (by rw [hconnections]; rfl) rfl⟩

end Runtime
end Remote
end HelmSsh
