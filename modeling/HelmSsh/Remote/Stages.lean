/-
# How a step moves the teardowns

What a step of the runtime does to the stage of a connection (`stageMove_of_step`): nothing, or
the connection leaves the registry and its teardown begins, or the teardown takes one of its
steps, or `close_all_orphans` drains the connection.  Every invariant of the registry about a
connection and its stage is a case analysis over `StageMove`.

The lists that `shutdown_all` goes through cover all registered connections
(`ShutdownCovers`), so none is left when it drains the tables.
-/

import HelmSsh.Remote.Runtime

namespace HelmSsh
namespace Remote
namespace Runtime

/-- The stage to which a step of the teardown leads. -/
def nextStage (s : Runtime) (c : ℕ) : TeardownAction → Stage
  | .listTerminals => .terminalsRemoving (Children.childrenOf s.children .terminal c)
  | .removeTerminal _ rest => .terminalsRemoving rest
  | .getSftpLock => .sftpWaiting
  | .acquireSftp => .sftpListing
  | .listSftp => .sftpTaking (s.sftp.sessionsOf c)
  | .takeSftp sessions => .transfersListing (s.presentSessions sessions)
  | .listTransfers sessions => .transfersCanceling sessions (s.sftp.transfersOf sessions)
  | .cancelTransfer sessions _ rest => .transfersCanceling sessions rest
  | .transfersCanceled sessions => .sftpClosing sessions
  | .closeSftp _ rest => .sftpClosing rest
  | .listTelemetry => .telemetryTaking (Children.childrenOf s.children .telemetry c)
  | .takeTelemetry _ => .forwardsListing
  | .listForwards => .forwardsTaking (s.forwardsOf c)
  | .takeForwards forwards => .forwardsCanceling (s.presentForwards forwards)
  | .cancelForward _ _ rest => .forwardsCanceling rest
  | .finish => .finished
  | .abort => .aborted

theorem afterTeardown_connections (s : Runtime) (c : ℕ) (action : TeardownAction) :
    (s.afterTeardown c action).connections = (s.setStage c (s.nextStage c action)).connections := by
  cases action with
  | cancelForward forward record rest =>
    simp only [afterTeardown, setStage, nextStage, cancelForward_connections]
  | _ => rfl

/-- What an event does to a connection. -/
inductive StageMove (s : Runtime) (c : ℕ) : Event → ConnectionRecord → ConnectionRecord → Prop where
  | same (event : Event) (r : ConnectionRecord) : StageMove s c event r r
  | begin (event : Event) (r : ConnectionRecord) (h : r.stage = .registered)
    (hfree : s.forwards.registryFree = true) :
    StageMove s c event r { r with stage := .terminalsListing }
  | teardown (action : TeardownAction) (r : ConnectionRecord)
    (h : s.TeardownEnabled c r.stage action) :
    StageMove s c (.teardown c action) r { r with stage := s.nextStage c action }
  | drained (r : ConnectionRecord) (h : r.stage = .registered)
    (hfree : s.forwards.registryFree = true) :
    StageMove s c (.shutdown .drainConnections) r { r with stage := .drained }

variable {s s' : Runtime}

/-- The connections after one of them has changed its stage. -/
theorem getElem?_setStage {c c' : ℕ} {stage : Stage} {r' : ConnectionRecord}
    (h : (s.setStage c stage).connections[c']? = some r') :
    (c' = c ∧ ∃ r, s.connections[c]? = some r ∧ r' = { r with stage := stage }) ∨
      (c' ≠ c ∧ s.connections[c']? = some r') := by
  simp only [setStage] at h
  by_cases hc : c = c'
  · subst hc
    rw [List.getElem?_modify] at h
    obtain ⟨r, hr, rfl⟩ := Option.map_eq_some_iff.mp h
    exact .inl ⟨rfl, r, hr, by simp⟩
  · rw [List.getElem?_modify_ne _ _ hc] at h
    exact .inr ⟨fun heq => hc heq.symm, h⟩

theorem stageOf_eq_some {c : ℕ} {stage : Stage} (h : s.stageOf c = some stage) :
    ∃ r, s.connections[c]? = some r ∧ r.stage = stage :=
  Option.map_eq_some_iff.mp h

theorem connection_isSome {c : ℕ} :
    (s.connection c).isSome = true ↔ ∃ r, s.connections[c]? = some r ∧ r.stage = .registered := by
  rw [connection]
  cases s.connections[c]? with
  | none => simp
  | some r => simp

theorem connection_eq_some {c : ℕ} {info : Connection} (h : s.connection c = some info) :
    ∃ r, s.connections[c]? = some r ∧ r.info = info ∧ r.stage = .registered := by
  obtain ⟨r, hr, h⟩ := Option.bind_eq_some_iff.mp h
  split_ifs at h with hstage
  exact ⟨r, hr, Option.some.inj h, hstage⟩

/-- **What a step does to a connection.** -/
theorem stageMove_of_step {event : Event} (h : machine.step s event = some s')
    {c : ℕ} {r' : ConnectionRecord} (hr' : s'.connections[c]? = some r') :
    (∃ r, s.connections[c]? = some r ∧ StageMove s c event r r') ∨
      s.connections[c]? = none ∧ r'.stage = .registered ∧ s.shutdown = .idle := by
  have hsame : s'.connections = s.connections →
      ∃ r, s.connections[c]? = some r ∧ StageMove s c event r r' := by
    intro heq
    rw [heq] at hr'
    exact ⟨r', hr', .same event r'⟩
  have hbegin : ∀ c', (s.connection c').isSome = true → s.forwards.registryFree = true →
      s'.connections = (s.setStage c' .terminalsListing).connections →
      ∃ r, s.connections[c]? = some r ∧ StageMove s c event r r' := by
    intro c' hsome hfree heq
    rw [heq] at hr'
    rcases getElem?_setStage hr' with ⟨rfl, r, hr, rfl⟩ | ⟨_, hold⟩
    · obtain ⟨r₀, hr₀, hstage⟩ := connection_isSome.mp hsome
      obtain rfl := Option.some.inj (hr.symm.trans hr₀)
      exact ⟨r, hr, .begin event r hstage hfree⟩
    · exact ⟨r', hold, .same event r'⟩
  cases event with
  | connect info =>
    obtain ⟨⟨hidle, -⟩, rfl⟩ := Option.ite_some_none_eq_some.mp h
    rcases Pool.getElem?_add hr' with ⟨rfl, rfl⟩ | hold
    · exact .inr ⟨List.getElem?_eq_none (Nat.le_refl _), rfl, hidle⟩
    · exact .inl ⟨r', hold, .same _ r'⟩
  | disconnect c' =>
    obtain ⟨⟨hsome, hfree⟩, rfl⟩ := Option.ite_some_none_eq_some.mp h
    exact .inl (hbegin c' hsome hfree rfl)
  | teardown c' action =>
    obtain ⟨stage, hstage, he, rfl⟩ := Pool.act_eq_some.mp h
    rw [afterTeardown_connections] at hr'
    rcases getElem?_setStage hr' with ⟨rfl, r, hr, rfl⟩ | ⟨_, hold⟩
    · obtain ⟨r₀, hr₀, rfl⟩ := stageOf_eq_some hstage
      obtain rfl := Option.some.inj (hr.symm.trans hr₀)
      exact .inl ⟨r, hr, .teardown action r he⟩
    · exact .inl ⟨r', hold, .same _ r'⟩
  | shutdown action =>
    obtain ⟨he, rfl⟩ := Option.ite_some_none_eq_some.mp h
    cases action with
    | close connection rest =>
      simp only [afterShutdown] at hsame hbegin hr'
      split_ifs at hsame hbegin hr' with hsome
      · exact .inl (hbegin connection hsome he.2 rfl)
      · exact .inl (hsame rfl)
    | cancelForward forward record rest =>
      exact .inl (hsame (cancelForward_connections s forward record _))
    | drainConnections =>
      have hmap : (s.connections.map fun r =>
          if r.stage = .registered then { r with stage := .drained } else r)[c]? = some r' := hr'
      rw [List.getElem?_map] at hmap
      obtain ⟨r, hr, rfl⟩ := Option.map_eq_some_iff.mp hmap
      refine .inl ⟨r, hr, ?_⟩
      split_ifs with hstage
      · exact .drained r hstage he.2
      · exact .same _ r
    | _ => exact .inl (hsame rfl)
  | child event =>
    obtain ⟨children, _, rfl⟩ := Option.map_eq_some_iff.mp h
    exact .inl (hsame rfl)
  | sftp event =>
    obtain ⟨sftp, _, rfl⟩ := Option.map_eq_some_iff.mp h
    exact .inl (hsame rfl)
  | forward event =>
    obtain ⟨forwards, _, rfl⟩ := Option.map_eq_some_iff.mp h
    exact .inl (hsame rfl)

theorem teardown_of_step {c : ℕ} {action : TeardownAction}
    (h : machine.step s (.teardown c action) = some s') :
    ∃ r, s.connections[c]? = some r ∧ s.TeardownEnabled c r.stage action ∧
      s' = s.afterTeardown c action := by
  obtain ⟨stage, hstage, h⟩ := Option.bind_eq_some_iff.mp h
  split_ifs at h with he
  obtain ⟨r, hr, rfl⟩ := stageOf_eq_some hstage
  exact ⟨r, hr, he, (Option.some.inj h).symm⟩

/-- A step that is not one of `shutdown_all` leaves how far that is. -/
theorem shutdown_of_step {event : Event} (h : machine.step s event = some s') :
    s'.shutdown = s.shutdown ∨
      ∃ action, event = .shutdown action ∧ s.ShutdownEnabled action ∧
        s' = s.afterShutdown action := by
  cases event with
  | connect info =>
    obtain ⟨-, rfl⟩ := Option.ite_some_none_eq_some.mp h
    exact .inl rfl
  | disconnect c =>
    obtain ⟨-, rfl⟩ := Option.ite_some_none_eq_some.mp h
    exact .inl rfl
  | teardown c action =>
    obtain ⟨stage, _, -, rfl⟩ := Pool.act_eq_some.mp h
    refine .inl ?_
    cases action with
    | cancelForward forward record rest =>
      simp only [afterTeardown, setStage, cancelForward]
      split
      · split_ifs <;> rfl
      · rfl
    | _ => rfl
  | shutdown action =>
    simp only [machine, step] at h
    split_ifs at h with he
    exact .inr ⟨action, rfl, he, (Option.some.inj h).symm⟩
  | child event =>
    obtain ⟨children, _, rfl⟩ := Option.map_eq_some_iff.mp h
    exact .inl rfl
  | sftp event =>
    obtain ⟨sftp, _, rfl⟩ := Option.map_eq_some_iff.mp h
    exact .inl rfl
  | forward event =>
    obtain ⟨forwards, _, rfl⟩ := Option.map_eq_some_iff.mp h
    exact .inl rfl

/-- The forwards that a teardown lists are those of its connection. -/
theorem mem_forwardsOf {c i : ℕ} :
    i ∈ s.forwardsOf c ↔ ∃ f, s.forwards.starts[i]? = some f ∧ f.record.isSome = true ∧
      f.request.connectionId = c := by
  simp only [forwardsOf, List.mem_filter, List.mem_range, Option.any_eq_true, Bool.and_eq_true,
    decide_eq_true_eq]
  constructor
  · exact fun h => h.2
  · rintro ⟨f, hf, hrest⟩
    exact ⟨(List.getElem?_eq_some_iff.mp hf).1, f, hf, hrest⟩

section Stage

variable {s s' : Runtime} {event : Event}

/-- The stage of a connection whose teardown has taken a step. -/
theorem stage_of_teardown {c : ℕ} {action : TeardownAction}
    (h : machine.step s (.teardown c action) = some s') {r' : ConnectionRecord}
    (hr' : s'.connections[c]? = some r') : r'.stage = s.nextStage c action := by
  obtain ⟨_, _, _, rfl⟩ := teardown_of_step h
  rw [afterTeardown_connections] at hr'
  rcases getElem?_setStage hr' with ⟨_, r, _, rfl⟩ | ⟨hne, _⟩
  · rfl
  · exact absurd rfl hne

/-- A stage that is not the result of a step of the teardown, nor its beginning. -/
theorem stage_back (h : machine.step s event = some s') {c : ℕ} {r' : ConnectionRecord}
    (hr' : s'.connections[c]? = some r') (hne : ∀ action, event ≠ .teardown c action)
    (hstage : r'.stage ≠ .registered ∧ r'.stage ≠ .terminalsListing ∧ r'.stage ≠ .drained) :
    s.connections[c]? = some r' := by
  rcases stageMove_of_step h hr' with ⟨r, hr, hmove⟩ | ⟨_, hregistered, _⟩
  · cases hmove with
    | same => exact hr
    | begin => exact absurd rfl hstage.2.1
    | teardown action => exact absurd rfl (hne action)
    | drained => exact absurd rfl hstage.2.2
  · exact absurd hregistered hstage.1

end Stage

end Runtime

/-! ### Shutdown closes every connection -/

/-- The connections that `shutdown_all` has not closed yet. -/
def Shutdown.todo : Shutdown → Option (List ℕ)
  | .idle => none
  | .closing connections | .awaiting _ connections => some connections
  | _ => some []

namespace Runtime

/-- A registered connection is among those that `shutdown_all` closes. -/
def ShutdownCovers (s : Runtime) : Prop :=
  ∀ todo, s.shutdown.todo = some todo → ∀ c, (s.connection c).isSome = true → c ∈ todo

variable {s s' : Runtime}

/-- A connection that is registered after a step was so before, or it has just come. -/
theorem connection_of_step {event : Event} (h : machine.step s event = some s')
    {c : ℕ} (hc : (s'.connection c).isSome = true) :
    (s.connection c).isSome = true ∨ s.shutdown = .idle := by
  obtain ⟨r', hr', hstage⟩ := connection_isSome.mp hc
  rcases stageMove_of_step h hr' with ⟨r, hr, hmove⟩ | ⟨_, _, hidle⟩
  · refine .inl (connection_isSome.mpr ?_)
    cases hmove with
    | same => exact ⟨r', hr, hstage⟩
    | begin _ _ hregistered => exact ⟨r, hr, hregistered⟩
    | teardown action _ he =>
      cases action <;> cases hstage
    | drained _ hregistered => exact ⟨r, hr, hregistered⟩
  · exact .inr hidle

/-- **A connection stays registered while a stop reads the registry.** -/
theorem connection_stays {event : Event} (h : machine.step s event = some s')
    (hread : s.forwards.registryFree = false) {c : ℕ} (hc : (s.connection c).isSome = true) :
    (s'.connection c).isSome = true := by
  obtain ⟨r, hr, hstage⟩ := connection_isSome.mp hc
  obtain ⟨r', hr', _⟩ := connections_of_step h hr
  refine connection_isSome.mpr ⟨r', hr', ?_⟩
  rcases stageMove_of_step h hr' with ⟨r₀, hr₀, hmove⟩ | ⟨hnone, _⟩
  · obtain rfl := Option.some.inj (hr.symm.trans hr₀)
    cases hmove with
    | same => exact hstage
    | begin _ _ _ hfree =>
      rw [hread] at hfree
      cases hfree
    | teardown action _ he =>
      rw [hstage] at he
      cases action with
      | acquireSftp => cases he.1
      | abort => exact absurd rfl he.1
      | _ => cases he
    | drained _ _ hfree =>
      rw [hread] at hfree
      cases hfree
  · rw [hnone] at hr
    cases hr

/-- **`shutdown_all` closes every connection.** -/
theorem ShutdownCovers.step {event : Event} (h : s.ShutdownCovers)
    (hstep : machine.step s event = some s') : s'.ShutdownCovers := by
  intro todo htodo c hc
  rcases shutdown_of_step hstep with hsame | ⟨action, rfl, he, rfl⟩
  · rw [hsame] at htodo
    rcases connection_of_step hstep hc with hold | hidle
    · exact h todo htodo c hold
    · rw [hidle] at htodo
      cases htodo
  · have hold : s.shutdown ≠ .idle → (s.connection c).isSome = true := by
      intro hbusy
      rcases connection_of_step hstep hc with hold | hidle
      · exact hold
      · exact absurd hidle hbusy
    cases action with
    | begin =>
      obtain rfl := Option.some.inj htodo
      have hlt : c < s.connections.length := by
        obtain ⟨r, hr, _⟩ := connection_isSome.mp hc
        exact (List.getElem?_eq_some_iff.mp hr).1
      exact List.mem_filter.mpr ⟨List.mem_range.mpr hlt, hc⟩
    | close connection rest =>
      have hp : s.shutdown = .closing (connection :: rest) := he.1
      have hmem := h _ (by rw [hp]; rfl) c (hold (by rw [hp]; rintro ⟨⟩))
      simp only [afterShutdown] at htodo hc
      split_ifs at htodo hc with hsome
      · obtain rfl := Option.some.inj htodo
        rcases List.mem_cons.mp hmem with rfl | hrest
        · obtain ⟨r', hr', hstage⟩ := connection_isSome.mp hc
          rcases getElem?_setStage hr' with ⟨_, r, _, rfl⟩ | ⟨hne, _⟩
          · cases hstage
          · exact absurd rfl hne
        · exact hrest
      · obtain rfl := Option.some.inj htodo
        rcases List.mem_cons.mp hmem with rfl | hrest
        · exact absurd hc hsome
        · exact hrest
    | resume connection rest =>
      obtain rfl := Option.some.inj htodo
      exact h _ (by rw [he.1]; rfl) c (hold (by rw [he.1]; rintro ⟨⟩))
    | drainTerminals =>
      obtain rfl := Option.some.inj htodo
      have hp : s.shutdown = .closing [] := he
      exact h _ (by rw [hp]; rfl) c (hold (by rw [hp]; rintro ⟨⟩))
    | drainConnections => cases htodo
    | _ =>
      obtain rfl := Option.some.inj htodo
      unfold ShutdownEnabled at he
      exact h _ (by rw [he]; rfl) c (hold (by rw [he]; rintro ⟨⟩))

theorem shutdownCovers_init : machine.init.ShutdownCovers := by
  intro todo htodo
  cases htodo

end Runtime
end Remote
end HelmSsh
