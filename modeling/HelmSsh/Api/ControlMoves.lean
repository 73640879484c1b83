/-
# What a step of a command can do

Every step of a command is one of the moves below: the command goes on to another phase, and of the
vault and the server a move says what becomes of them.  The line follows from the phases.

* `taskStep_move` — a step of a task is a move;
* `Move.canMove` — a move goes through the line as a fair mutex lets it;
* `State.Linked.moved` — so the line stays that of the commands.
-/

import HelmSsh.Api.ServerControl

namespace HelmSsh
namespace Api
namespace Control

open Config Vault

/-- A reconciliation of this task is to come. -/
def Phase.pending : Phase → Bool
  | .written .. | .applied | .reconciling | .relocked | .latest _ => true
  | _ => false

/-- A command may be back after a step from this phase; a stop takes the handle first. -/
def Phase.leaves (command : Command) : Phase → Bool
  | .waiting | .written .. | .applied | .reconciling | .latest _ | .emptied _ | .restoring .. |
    .restoreWaiting .. | .done => false
  | .locked => match command with
    | .stop => false
    | _ => true
  | _ => true

/-- A command is back: the autostart between two attempts, or any command at its end. -/
def Task.IsBack (t : Task) (phase : Phase) : Prop :=
  phase = .done ∨ phase = .called ∧ t.command = .autostart

/-- The moves of the task `t` at `i`: the event, where the task goes on, the vault and the server
afterwards. -/
inductive Move (s : State) (i : ℕ) (t : Task) :
    TaskEvent → Phase → Option VaultData → Option ServerHandle → Prop where
  /-- Asking for the mutex. -/
  | retry (hcommand : t.command = .autostart) (hphase : t.phase = .called) :
    Move s i t .join .waiting s.data s.server
  | reconcileLater (hphase : t.phase = .applied) : Move s i t .join .reconciling s.data s.server
  | restoreLater {port : UInt16} {ids : List String} {origin : ℕ}
      (hphase : t.phase = .restoring port ids origin) :
    Move s i t .join (.restoreWaiting port ids origin) s.data s.server
  /-- Going in. -/
  | lock (hphase : t.phase = .waiting) (hfirst : s.line.head? = some i) :
    Move s i t .acquire .locked s.data s.server
  | relock (hphase : t.phase = .reconciling) (hfirst : s.line.head? = some i) :
    Move s i t .acquire .relocked s.data s.server
  | restore {port : UInt16} {ids : List String} {origin : ℕ}
      (hphase : t.phase = .restoreWaiting port ids origin) (hfirst : s.line.head? = some i) :
    Move s i t .acquire (.starting port ids origin) s.data s.server
  /-- The command is back; the server is as it was, or there is none. -/
  | quit {e : TaskEvent} {phase : Phase} {server : Option ServerHandle}
      (hleaves : t.phase.leaves t.command = true)
      (hpending : t.phase.pending = true → server = none)
      (hserver : server = s.server ∨ server = none) (hback : t.IsBack phase) :
    Move s i t e phase s.data server
  | stopped (hcommand : t.command = .stop) (hphase : t.phase = .locked) :
    Move s i t .take .done s.data none
  | configure {wanted port : UInt16} {ids : List String} {autoStart : Bool}
      (hcommand : t.command = .configureAndStart wanted ids autoStart)
      (hphase : t.phase = .locked) (hsome : normalizeAllowedSessionIds ids none ≠ []) :
    Move s i t .check (.configuring port) s.data s.server
  | cleared (hcommand : t.command = .autostart) (hphase : t.phase = .locked)
      (hgo : s.cancelled = false) : Move s i t .check .cleared s.data s.server
  | mutation {op : VaultOp} {env : Env} {old new : VaultData} (hop : t.mutation = some op)
      (hdata : s.data = some old) (hperform : op.perform env old = .ok new) :
    Move s i t (.write env true) (t.afterMutation (configuredIds old) new) (some new) s.server
  /-- The cache of the server is written. -/
  | syncApplied {before : List String} {snapshot : VaultData} {port : Option UInt16}
      (hphase : t.phase = .written before snapshot port)
      (hport : ∀ wanted ids autoStart,
        t.command = .configureAndStart wanted ids autoStart → port = none) :
    Move s i t .sync .applied s.data (s.syncCache snapshot).server
  | syncStarting {before requested : List String} {snapshot : VaultData} {wanted port : UInt16}
      {autoStart : Bool} (hcommand : t.command = .configureAndStart wanted requested autoStart)
      (hphase : t.phase = .written before snapshot (some port)) :
    Move s i t .sync (.starting port (normalizeAllowedSessionIds requested none) i) s.data
      (s.syncCache snapshot).server
  /-- The vault is read. -/
  | readSettings {current : VaultData} {port : UInt16} (hphase : t.phase = .cleared)
      (hdata : s.data = some current) :
    Move s i t .read (.starting port (configuredIds current) i) s.data s.server
  | readLatest {current : VaultData} (hphase : t.phase = .relocked)
      (hdata : s.data = some current) : Move s i t .read (.latest current) s.data s.server
  | readRestore {current : VaultData} {port : UInt16} {origin : ℕ}
      (hphase : t.phase = .replaced (some origin)) (hdata : s.data = some current) :
    Move s i t .read (.restoring port (requestedIds current.settings) origin) s.data s.server
  | reconcile {snapshot : VaultData} (hphase : t.phase = .latest snapshot) :
    Move s i t .reconcile .done s.data (s.reconciled snapshot)
  | name {current : VaultData} {port : UInt16} {ids : List String} {origin : ℕ}
      (hphase : t.phase = .starting port ids origin) (hdata : s.data = some current)
      (hsome : ids ≠ [])
      (hnames : (allowedSessionNamesForIds current ids).length = ids.length) :
    Move s i t .readNames (.named port ids (allowedSessionNamesForIds current ids) origin) s.data
      s.server
  /-- A running server gets the sessions. -/
  | share {e : TaskEvent} {port : UInt16} {ids : List String} {names : List (String × String)}
      {origin : ℕ} {h : ServerHandle} (hphase : t.phase = .named port ids names origin)
      (hrunning : s.running = some h) : Move s i t e .done s.data (some (h.allow ids names))
  | keep {e : TaskEvent} {port : UInt16} {key : String} {ids : List String}
      {names : List (String × String)} {origin : ℕ} {current : VaultData}
      (hphase : t.phase = .named port ids names origin)
      (hdata : s.data = some current) :
    Move s i t e (.binding port key ids names origin) s.data none
  | generate {e : TaskEvent} {port : UInt16} {key : String} {ids : List String}
      {names : List (String × String)} {origin : ℕ} {env : Env} {old new : VaultData}
      (hphase : t.phase = .named port ids names origin) (hdata : s.data = some old)
      (hperform : (VaultOp.settingsAiApiKeyUpdate (some key)).perform env old = .ok new) :
    Move s i t e (.binding port key ids names origin) (some new) none
  | start {port : UInt16} {key : String} {ids : List String} {names : List (String × String)}
      {origin : ℕ} (hphase : t.phase = .binding port key ids names origin) :
    Move s i t (.bind .started) .done s.data
      (some
        { port := port, apiKey := key, allowedSessionIds := ids, allowedSessionNames := names,
          finished := false, origin := origin })
  | restart {h : ServerHandle} {key : String} (hphase : t.phase = .taken h) :
    Move s i t (.bind .started) .done s.data (some { h with apiKey := key, finished := false })
  /-- The handle is taken. -/
  | empty (hcommand : t.command = .replaceConfig) (hphase : t.phase = .locked) :
    Move s i t .take (.emptied (s.running.map ServerHandle.origin)) s.data none
  | rekey {h : ServerHandle} (hphase : t.phase = .rekeyed) (hserver : s.server = some h) :
    Move s i t .take (.taken h) s.data none
  | replaced {wasRunning : Option ℕ} {result : Option VaultData}
      (hphase : t.phase = .emptied wasRunning) :
    Move s i t (.replaceData result) (.replaced wasRunning) (result <|> s.data) s.server

/-- The state after a move. -/
def State.moved (s : State) (i : ℕ) (t : Task) (phase : Phase) (data : Option VaultData)
    (server : Option ServerHandle) : State :=
  { data := data, server := server, cancelled := s.cancelled
    line := ServiceLine.after s.line i t.place phase.place
    tasks := s.tasks.set i { t with phase := phase } }

/-- The step leads to the state after one of the moves. -/
def IsMove (s : State) (i : ℕ) (t : Task) (e : TaskEvent) (s' : State) : Prop :=
  ∃ phase data server, Move s i t e phase data server ∧ s' = s.moved i t phase data server

/-! ### Every step is a move -/

variable {s s' : State} {i : ℕ} {t : Task} {e : TaskEvent} {phase : Phase}
  {data : Option VaultData} {server : Option ServerHandle}

theorem Move.put (hmove : Move s i t e phase data server)
    (hline : ServiceLine.after s.line i t.place phase.place = s.line) :
    IsMove s i t e { s.put i t phase with data := data, server := server } := by
  refine ⟨phase, data, server, hmove, ?_⟩
  rw [State.moved, hline]
  rfl

theorem Move.leave (hmove : Move s i t e phase data server) (hinside : t.place = .inside)
    (houtside : phase.place = .outside) :
    IsMove s i t e { s.leave i t phase with data := data, server := server } := by
  refine ⟨phase, data, server, hmove, ?_⟩
  rw [State.moved, hinside, houtside]
  rfl

theorem Move.join (hmove : Move s i t e phase data server) (houtside : t.place = .outside)
    (hwaiting : phase.place = .waiting) :
    IsMove s i t e { s.join i t phase with data := data, server := server } := by
  refine ⟨phase, data, server, hmove, ?_⟩
  rw [State.moved, houtside, hwaiting]
  rfl

/-- The server that runs is the server, or there is none. -/
theorem running_eq : s.running = s.server ∨ s.running = none := by
  rw [State.running]
  cases s.server with
  | none => exact .inl rfl
  | some h =>
    rw [Option.filter_some]
    split_ifs
    · exact .inl rfl
    · exact .inr rfl

theorem server_of_running {h : ServerHandle} (hrunning : s.running = some h) :
    s.server = some h := by
  rcases running_eq (s := s) with heq | hnone
  · rw [← heq, hrunning]
  · rw [hnone] at hrunning
    cases hrunning

theorem isMove_quit (hinside : t.place = .inside) (hleaves : t.phase.leaves t.command = true)
    (hpending : t.phase.pending = true → server = none)
    (hserver : server = s.server ∨ server = none) :
    IsMove s i t e { s.leave i t .done with server := server } :=
  Move.leave (.quit hleaves hpending hserver (.inl rfl)) hinside rfl

/-- `start_api_server_inner` fails. -/
theorem isMove_startFailed (hinside : t.place = .inside)
    (hleaves : t.phase.leaves t.command = true) (hpending : t.phase.pending = false)
    (hserver : server = s.server ∨ server = none) :
    IsMove s i t e { s.startFailed i t with server := server } ∧
      IsMove s i t e (s.startFailed i t) := by
  have hpending' : ∀ server : Option ServerHandle, t.phase.pending = true → server = none :=
    fun server htrue => by
      rw [hpending] at htrue
      cases htrue
  rw [State.startFailed]
  split
  · exact ⟨isMove_quit hinside hleaves (hpending' _) hserver,
      isMove_quit hinside hleaves (hpending' _) (.inr rfl)⟩
  · exact ⟨isMove_quit hinside hleaves (hpending' _) hserver,
      isMove_quit hinside hleaves (hpending' _) (.inl rfl)⟩

theorem isMove_refused (hplace : t.place ≠ .waiting) (hleaves : t.phase.leaves t.command = true)
    (hpending : t.phase.pending = false) : IsMove s i t e (s.refused i t) := by
  have hquit : Move s i t e .done s.data s.server :=
    .quit hleaves (fun htrue => by rw [hpending] at htrue; cases htrue) (.inl rfl) (.inl rfl)
  rw [State.refused]
  split_ifs with hinside
  · exact hquit.leave hinside rfl
  · refine hquit.put ?_
    cases hcase : t.place with
    | outside => rfl
    | waiting => exact absurd hcase hplace
    | inside => exact absurd hcase hinside

/-- `check` is a move. -/
theorem check_move (hstep : s.check i t = some s') : IsMove s i t .check s' := by
  obtain ⟨command, taskPhase⟩ := t
  rw [State.check] at hstep
  split at hstep
  · rename_i wanted ids autoStart hcommand hphase
    cases hcommand
    cases hphase
    split_ifs at hstep with hrefuse
    · obtain rfl := Option.some.inj hstep
      exact isMove_quit rfl rfl (fun h => by cases h) (.inl rfl)
    · obtain rfl := Option.some.inj hstep
      have hsome : normalizeAllowedSessionIds ids none ≠ [] := by
        intro hnil
        rw [hnil] at hrefuse
        exact hrefuse (Bool.or_true _)
      exact Move.put (.configure rfl rfl hsome) rfl
  · rename_i hcommand hphase
    cases hcommand
    cases hphase
    split_ifs at hstep with hrefuse
    · obtain rfl := Option.some.inj hstep
      exact isMove_quit rfl rfl (fun h => by cases h) (.inl rfl)
    · obtain rfl := Option.some.inj hstep
      have hgo : s.cancelled = false := by
        cases hcase : s.cancelled with
        | false => rfl
        | true => exact absurd (by rw [hcase]; rfl) hrefuse
      exact Move.put (.cleared rfl rfl hgo) rfl
  · rename_i hcommand hphase
    cases hcommand
    cases hphase
    obtain rfl := Option.some.inj hstep
    exact isMove_quit rfl rfl (fun h => by cases h) running_eq
  · cases hstep

/-- What the phase of a command says that has a mutation to make. -/
theorem mutation_phase {op : VaultOp} (hop : t.mutation = some op) :
    t.place ≠ .waiting ∧ t.phase.leaves t.command = true ∧ t.phase.pending = false := by
  obtain ⟨command, taskPhase⟩ := t
  rw [Task.mutation] at hop
  split at hop
  case h_6 => cases hop
  all_goals
    rename_i hcommand hphase
    cases hcommand
    cases hphase
    exact ⟨nofun, rfl, rfl⟩

/-- Where a command goes on after its mutation, it stays in the line or outside of it. -/
theorem mutation_place {op : VaultOp} {before : List String} {new : VaultData}
    (hop : t.mutation = some op) : (t.afterMutation before new).place = t.place := by
  obtain ⟨command, taskPhase⟩ := t
  rw [Task.mutation] at hop
  split at hop
  case h_6 => cases hop
  all_goals
    rename_i hcommand hphase
    cases hcommand
    cases hphase
    rfl

theorem after_same {line : List ℕ} {source target : LinePlace} (h : target = source) :
    ServiceLine.after line i source target = line := by
  subst h
  cases target <;> rfl

/-- `write` is a move. -/
theorem write_move {env : Env} {accepted : Bool} (hstep : s.write i t env accepted = some s') :
    IsMove s i t (.write env accepted) s' := by
  obtain ⟨op, hop, rfl⟩ := Option.map_eq_some_iff.mp hstep
  obtain ⟨hplace, hleaves, hpending⟩ := mutation_phase hop
  split
  · rename_i old hdata
    split
    · rename_i new hperform
      refine Move.put (.mutation hop hdata hperform) (after_same ?_)
      exact mutation_place hop
    · exact isMove_refused hplace hleaves hpending
  · exact isMove_refused hplace hleaves hpending

/-- `read` is a move. -/
theorem read_move (hstep : s.read i t = some s') : IsMove s i t .read s' := by
  obtain ⟨command, taskPhase⟩ := t
  rw [State.read] at hstep
  split at hstep
  · rename_i current hphase hdata
    cases hphase
    split at hstep
    · obtain rfl := Option.some.inj hstep
      exact isMove_quit rfl rfl (fun h => by cases h) (.inl rfl)
    · split_ifs at hstep
      · obtain rfl := Option.some.inj hstep
        exact isMove_quit rfl rfl (fun h => by cases h) (.inl rfl)
      · obtain rfl := Option.some.inj hstep
        exact Move.put (.readSettings rfl hdata) rfl
  · rename_i hphase hdata
    cases hphase
    obtain rfl := Option.some.inj hstep
    exact isMove_quit rfl rfl (fun h => by cases h) (.inl rfl)
  · rename_i current hphase hdata
    cases hphase
    obtain rfl := Option.some.inj hstep
    exact Move.put (.readLatest rfl hdata) rfl
  · rename_i hphase hdata
    cases hphase
    obtain rfl := Option.some.inj hstep
    exact isMove_quit rfl rfl (fun _ => rfl) (.inr rfl)
  · rename_i origin current hphase hdata
    cases hphase
    split at hstep
    · obtain rfl := Option.some.inj hstep
      exact Move.put (.quit rfl (fun h => by cases h) (.inl rfl) (.inl rfl)) rfl
    · split_ifs at hstep
      · obtain rfl := Option.some.inj hstep
        exact Move.put (.quit rfl (fun h => by cases h) (.inl rfl) (.inl rfl)) rfl
      · obtain rfl := Option.some.inj hstep
        exact Move.put (.readRestore rfl hdata) rfl
  · rename_i hphase _
    cases hphase
    obtain rfl := Option.some.inj hstep
    exact Move.put (.quit rfl (fun h => by cases h) (.inl rfl) (.inl rfl)) rfl
  · cases hstep

/-- `readNames` is a move. -/
theorem readNames_move (hstep : s.readNames i t = some s') : IsMove s i t .readNames s' := by
  obtain ⟨command, taskPhase⟩ := t
  rw [State.readNames] at hstep
  split at hstep
  · rename_i port ids origin hphase
    cases hphase
    split at hstep
    · obtain rfl := Option.some.inj hstep
      exact (isMove_startFailed rfl rfl rfl (.inl rfl)).2
    · rename_i current hdata
      dsimp only at hstep
      split_ifs at hstep with hrefuse
      · obtain rfl := Option.some.inj hstep
        exact (isMove_startFailed rfl rfl rfl (.inl rfl)).2
      · obtain rfl := Option.some.inj hstep
        rw [Bool.or_eq_true, not_or] at hrefuse
        have hnames : (allowedSessionNamesForIds current ids).length = ids.length := by
          by_contra hne
          exact hrefuse.2 (decide_eq_true hne)
        have hsome : ids ≠ [] := fun hnil => hrefuse.1 (by rw [hnil]; rfl)
        exact Move.put (.name rfl hdata hsome hnames) rfl
  · cases hstep

/-- `enter` is a move. -/
theorem enter_move {env : Env} {newKey : String} {accepted : Bool}
    (hstep : s.enter i t env newKey accepted = some s') :
    IsMove s i t (.enter env newKey accepted) s' := by
  obtain ⟨command, taskPhase⟩ := t
  rw [State.enter] at hstep
  split at hstep
  · rename_i port ids names origin hphase
    cases hphase
    split at hstep
    · rename_i h hrunning
      obtain rfl := Option.some.inj hstep
      exact Move.leave (.share rfl hrunning) rfl rfl
    · obtain rfl := Option.some.inj hstep
      exact (isMove_startFailed rfl rfl rfl (.inr rfl)).1
    · rename_i current _ hdata
      split at hstep
      · obtain rfl := Option.some.inj hstep
        exact Move.put (.keep rfl hdata) rfl
      · split at hstep
        · rename_i new hperform
          obtain rfl := Option.some.inj hstep
          exact Move.put (.generate rfl hdata hperform) rfl
        · obtain rfl := Option.some.inj hstep
          exact (isMove_startFailed rfl rfl rfl (.inr rfl)).1
  · cases hstep

/-- `bind` is a move. -/
theorem bind_move {outcome : BindOutcome} (hstep : s.bind i t outcome = some s') :
    IsMove s i t (.bind outcome) s' := by
  obtain ⟨command, taskPhase⟩ := t
  unfold State.bind at hstep
  split at hstep
  · rename_i hphase
    cases hphase
    obtain rfl := Option.some.inj hstep
    exact Move.leave (.start rfl) rfl rfl
  · rename_i hphase
    cases hphase
    split at hstep
    · rename_i hcommand
      cases hcommand
      obtain rfl := Option.some.inj hstep
      exact Move.leave (.quit rfl (fun h => by cases h) (.inl rfl) (.inr ⟨rfl, rfl⟩)) rfl rfl
    · obtain rfl := Option.some.inj hstep
      exact (isMove_startFailed rfl rfl rfl (.inl rfl)).2
  · rename_i hphase
    cases hphase
    obtain rfl := Option.some.inj hstep
    exact (isMove_startFailed rfl rfl rfl (.inl rfl)).2
  · rename_i h hphase
    cases hphase
    split at hstep
    · rename_i newKey hcommand
      obtain rfl := Option.some.inj hstep
      exact Move.leave (.restart rfl) rfl rfl
    · cases hstep
  · rename_i hphase _
    cases hphase
    obtain rfl := Option.some.inj hstep
    exact isMove_quit rfl rfl (fun h => by cases h) (.inl rfl)
  · cases hstep

/-- `take` is a move. -/
theorem take_move (hstep : s.take i t = some s') : IsMove s i t .take s' := by
  obtain ⟨command, taskPhase⟩ := t
  rw [State.take] at hstep
  split at hstep
  · rename_i hcommand hphase
    cases hcommand
    cases hphase
    obtain rfl := Option.some.inj hstep
    exact Move.leave (.stopped rfl rfl) rfl rfl
  · rename_i hcommand hphase
    cases hcommand
    cases hphase
    obtain rfl := Option.some.inj hstep
    exact Move.put (.empty rfl rfl) rfl
  · rename_i newKey hcommand hphase
    cases hcommand
    cases hphase
    split at hstep
    · obtain rfl := Option.some.inj hstep
      exact isMove_quit rfl rfl (fun h => by cases h) (.inl rfl)
    · rename_i h hserver
      obtain rfl := Option.some.inj hstep
      exact Move.put (.rekey rfl hserver) rfl
  · cases hstep

/-- **Every step of a command is a move.** -/
theorem taskStep_move (hstep : s.taskStep i t e = some s') : IsMove s i t e s' := by
  cases e with
  | join =>
    obtain ⟨command, taskPhase⟩ := t
    simp only [State.taskStep] at hstep
    split at hstep
    · obtain rfl := Option.some.inj hstep
      exact Move.join (.retry rfl rfl) rfl rfl
    · obtain rfl := Option.some.inj hstep
      exact Move.join (.reconcileLater rfl) rfl rfl
    · obtain rfl := Option.some.inj hstep
      exact Move.join (.restoreLater rfl) rfl rfl
    · cases hstep
  | acquire =>
    obtain ⟨command, taskPhase⟩ := t
    simp only [State.taskStep] at hstep
    split_ifs at hstep with hfirst
    split at hstep
    · obtain rfl := Option.some.inj hstep
      exact Move.put (.lock rfl hfirst) rfl
    · obtain rfl := Option.some.inj hstep
      exact Move.put (.relock rfl hfirst) rfl
    · obtain rfl := Option.some.inj hstep
      exact Move.put (.restore rfl hfirst) rfl
    · cases hstep
  | check => exact check_move hstep
  | write env accepted => exact write_move hstep
  | sync =>
    obtain ⟨command, taskPhase⟩ := t
    simp only [State.taskStep] at hstep
    split at hstep
    · split at hstep
      · obtain rfl := Option.some.inj hstep
        exact Move.put (.syncStarting rfl rfl) rfl
      · rename_i hother
        obtain rfl := Option.some.inj hstep
        refine Move.leave (.syncApplied rfl fun wanted ids autoStart hcommand => ?_) rfl rfl
        refine Option.eq_none_iff_forall_ne_some.mpr fun port hport => ?_
        exact hother wanted ids autoStart port hcommand hport
    · cases hstep
  | read => exact read_move hstep
  | reconcile =>
    obtain ⟨command, taskPhase⟩ := t
    simp only [State.taskStep] at hstep
    split at hstep
    · obtain rfl := Option.some.inj hstep
      exact Move.leave (.reconcile rfl) rfl rfl
    · cases hstep
  | readNames => exact readNames_move hstep
  | enter env newKey accepted => exact enter_move hstep
  | bind outcome => exact bind_move hstep
  | take => exact take_move hstep
  | replaceData result =>
    obtain ⟨command, taskPhase⟩ := t
    simp only [State.taskStep] at hstep
    split at hstep
    · obtain rfl := Option.some.inj hstep
      exact Move.leave (.replaced rfl) rfl rfl
    · cases hstep
  | giveUp =>
    obtain ⟨command, taskPhase⟩ := t
    simp only [State.taskStep] at hstep
    split at hstep
    · obtain rfl := Option.some.inj hstep
      exact Move.put (.quit rfl (fun h => by cases h) (.inl rfl) (.inl rfl)) rfl
    · cases hstep

/-! ### The line -/

theorem place_of_leaves {command : Command} (h : phase.leaves command = true) :
    phase.place ≠ .waiting := by
  cases phase with
  | waiting | reconciling | restoreWaiting => cases h
  | _ => exact nofun

/-- Outside of the mutex a command that may be back is not pending. -/
theorem pending_of_leaves {command : Command} (h : phase.leaves command = true)
    (hplace : phase.place ≠ .inside) : phase.pending = false := by
  cases phase with
  | called | replaced => rfl
  | waiting | written | applied | reconciling | latest | emptied | restoring | restoreWaiting
  | done => cases h
  | _ => exact absurd rfl hplace

/-- **A move goes through the line as a fair mutex lets it.** -/
theorem Move.canMove (hmove : Move s i t e phase data server) :
    ServiceLine.CanMove s.line i t.place phase.place := by
  have hplace : t.place = t.phase.place := rfl
  cases hmove with
  | retry _ hphase | reconcileLater hphase | restoreLater hphase =>
    rw [hplace, hphase]
    exact .inr (.inl ⟨rfl, rfl⟩)
  | lock hphase hfirst | relock hphase hfirst | restore hphase hfirst =>
    rw [hplace, hphase]
    exact .inr (.inr (.inl ⟨rfl, rfl, hfirst⟩))
  | quit hleaves _ _ hback =>
    have houtside : phase.place = .outside := by
      rcases hback with rfl | ⟨rfl, -⟩ <;> rfl
    rw [houtside]
    cases hcase : t.place with
    | outside => exact .inl rfl
    | inside => exact .inr (.inr (.inr ⟨rfl, rfl⟩))
    | waiting => exact absurd hcase (place_of_leaves hleaves)
  | mutation hop => exact .inl (mutation_place hop)
  | stopped _ hphase | syncApplied hphase _ | reconcile hphase | share hphase | start hphase
  | restart hphase | replaced hphase =>
    rw [hplace, hphase]
    exact .inr (.inr (.inr ⟨rfl, rfl⟩))
  | configure _ hphase | cleared _ hphase | syncStarting _ hphase | readSettings hphase
  | readLatest hphase | readRestore hphase | name hphase | keep hphase | generate hphase
  | empty _ hphase | rekey hphase =>
    rw [hplace, hphase]
    exact .inl rfl

/-- The line is that of the commands. -/
def State.Linked (s : State) : Prop :=
  ServiceLine.Linked Task.place s.line s.tasks

theorem State.Linked.moved (h : s.Linked) (ht : s.tasks[i]? = some t)
    (hmove : Move s i t e phase data server) : (s.moved i t phase data server).Linked := by
  have hcan : ServiceLine.CanMove s.line i t.place (Task.place { t with phase := phase }) :=
    hmove.canMove
  exact ServiceLine.Linked.move h ht hcan

theorem State.Linked.begin {command : Command} (h : s.Linked)
    (hstep : s.step (.begin command) = some s') : s'.Linked := by
  rw [State.step] at hstep
  split at hstep
  · obtain rfl := Option.some.inj hstep
    exact @ServiceLine.Linked.arrive _ _ _ _ _ h rfl ⟨command, .done⟩ rfl
  · rename_i hphase
    obtain rfl := Option.some.inj hstep
    refine ServiceLine.Linked.add h ?_
    show command.firstPhase.place = .outside
    cases command <;> first | rfl | exact absurd rfl hphase

/-- What is no step of a command leaves the commands and the line alone, and starts no server. -/
theorem frame_of_step {event : Event} (hstep : s.step event = some s')
    (hbegin : ∀ command, event ≠ .begin command) (htask : ∀ i e, event ≠ .task i e) :
    s'.tasks = s.tasks ∧ s'.line = s.line ∧ s'.cancelled = s.cancelled ∧
      ∀ w, s'.server = some w → ∃ v, s.server = some v ∧ v.origin = w.origin := by
  cases event with
  | begin command => exact absurd rfl (hbegin command)
  | task i e => exact absurd rfl (htask i e)
  | mutate env op =>
    obtain ⟨data, -, hstep⟩ := Option.bind_eq_some_iff.mp hstep
    split_ifs at hstep
    split at hstep
    · obtain rfl := Option.some.inj hstep
      exact ⟨rfl, rfl, rfl, fun w hw => ⟨w, hw, rfl⟩⟩
    · cases hstep
  | openVault data =>
    obtain ⟨-, rfl⟩ := Option.ite_some_none_eq_some.mp hstep
    exact ⟨rfl, rfl, rfl, fun w hw => ⟨w, hw, rfl⟩⟩
  | reload data =>
    obtain ⟨_, -, rfl⟩ := Option.map_eq_some_iff.mp hstep
    exact ⟨rfl, rfl, rfl, fun w hw => ⟨w, hw, rfl⟩⟩
  | serverEnds =>
    obtain ⟨v, hv, rfl⟩ := Option.map_eq_some_iff.mp hstep
    refine ⟨rfl, rfl, rfl, fun w hw => ⟨v, hv, ?_⟩⟩
    obtain rfl := Option.some.inj hw
    rfl

theorem State.linked_init : State.init.Linked :=
  ServiceLine.linked_nil

end Control
end Api
end HelmSsh
