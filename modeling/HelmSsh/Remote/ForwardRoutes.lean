/-
# The routing tables agree with the forwards

A connection has a table `remote_forwards`, which tells the target of a channel that the server
opens (`server_channel_open_forwarded_tcpip` in `src-tauri/src/remote.rs`).
`forward_start_remote_unlocked` writes the entry of the requested address before it asks the
server, and moves it when the server assigns another port; what removes the entry is the rest of
that start, or a stop that has removed the record of the forward.

An entry has an owner at every moment (`State.Owns`): a start that has written it, a record in
the table, or a stop that holds the record.  The table and the owners agree, so long as no caller
goes away that has an entry in its hands, and no start writes an entry over another one
(`RoutesSafely`): `routes_of_run`.  Otherwise an entry stays behind, and the channels of the
address go to a forward that was abandoned (`not_always_routed`).
-/

import HelmSsh.OwnedTable
import HelmSsh.Remote.ForwardUnique

namespace HelmSsh
namespace Remote
namespace Forward

namespace Start

/-- The key of the entry that a start has written and not yet left to its record. -/
def entry (f : Start) : Option (List Char) :=
  match f.phase with
  | .requesting | .assigned _ | .refusing _ => some (f.key f.request.bindPort)
  | .routed port | .orphaned port | .unrouting port => some (f.key port)
  | _ => none

/-- A start claims an entry, or its record in the table does. -/
def Claims (f : Start) (k : List Char) : Prop :=
  f.entry = some k ∨ f.request.forwardType = .remoteForward ∧
    ∃ r, f.record = some r ∧ r.listenerStarted = true ∧ f.key r.bindPort = k

end Start

namespace State

/-- A stop holds the record of a forward. -/
def Takes (s : State) (i : ℕ) (port : UInt16) : Prop :=
  ∃ (j : ℕ) (t : Stop) (x : Taken), s.stops[j]? = some t ∧ t.phase.holding = some x ∧
    x.forward = i ∧ x.record.bindPort = port

/-- A start keeps an entry, or a stop does that holds its record. -/
def Keeps (s : State) (i : ℕ) (f : Start) (k : List Char) : Prop :=
  f.Claims k ∨ ∃ port, s.Takes i port ∧ f.key port = k

/-- The owner of an entry in the routing table of a connection. -/
def Owns (s : State) (c i : ℕ) (k : List Char) : Prop :=
  ∃ f, s.starts[i]? = some f ∧ f.request.connectionId = c ∧ s.Keeps i f k

/-- The routing table of a connection has the entries that are owned. -/
def Routed (s : State) (c : ℕ) : Prop :=
  OwnedTable (s.routes c) (s.Owns c)

/-- `server_channel_open_forwarded_tcpip`: the forward that a channel is routed to. -/
def serverChannelOpenForwardedTcpip (s : State) (c : ℕ) (connectedAddress : List Char)
    (connectedPort : UInt32) : Option ℕ :=
  (normalizeForwardedChannelPort connectedPort).bind fun port =>
    s.routes c (forwardKey connectedAddress port)

/-- No start on a connection and no stop is in progress. -/
def settledOn (s : State) (c : ℕ) : Bool :=
  s.starts.all (fun f => f.request.connectionId ≠ c || !f.waits && f.phase ≠ .published) &&
    s.stops.all (fun t => !t.waits)

end State

/-- No caller goes away with an entry in its hands, and no start writes an entry over another
one. -/
def State.Careful (s : State) : Event → Prop
  | .startAct i .dropCaller => (s.starts[i]?).all (fun f => f.entry.isNone) = true
  | .stopAct j .dropCaller => (s.stops[j]?).all (fun t => t.phase.holding.isNone) = true
  | .startAct i .insertRoute =>
    (s.starts[i]?).all (fun f =>
      (s.routes f.request.connectionId (f.key f.request.bindPort)).isNone) = true
  | .startAct i (.assign port) =>
    (s.starts[i]?).all (fun f =>
      port = f.request.bindPort || (s.routes f.request.connectionId (f.key port)).isNone) = true
  | _ => True

instance (s : State) (event : Event) : Decidable (s.Careful event) := by
  unfold State.Careful
  split <;> infer_instance

/-- A step of the runtime is careful with the routing tables. -/
def RoutesSafely (s : Runtime) : Remote.Event → Prop
  | .forward event => s.forwards.Careful event
  | _ => True

instance (s : Runtime) (event : Remote.Event) : Decidable (RoutesSafely s event) := by
  unfold RoutesSafely
  split <;> infer_instance

/-! ### Claims -/

namespace Start

variable {c : ℕ} {f f' : Start}

/-- A start whose claims on the entries of a connection stay what they are. -/
structure SameClaims (c : ℕ) (f f' : Start) : Prop where
  request : f'.request = f.request
  claims : f.request.connectionId = c → ∀ k, f'.Claims k ↔ f.Claims k

theorem SameClaims.refl (f : Start) : f.SameClaims c f := ⟨rfl, fun _ _ => Iff.rfl⟩

theorem sameClaims_of_ne (hrequest : f'.request = f.request) (hne : f.request.connectionId ≠ c) :
    f.SameClaims c f' :=
  ⟨hrequest, fun hc => absurd hc hne⟩

theorem sameClaims_of (hrequest : f'.request = f.request) (hentry : f'.entry = f.entry)
    (hrecord : f'.record = f.record) : f.SameClaims c f' := by
  refine ⟨hrequest, fun _ k => ?_⟩
  rw [Claims, Claims, hentry, hrequest, hrecord]
  simp only [key, hrequest]

theorem sameClaims_of_none (hrequest : f'.request = f.request) (hbefore : ∀ k, ¬ f.Claims k)
    (hafter : ∀ k, ¬ f'.Claims k) : f.SameClaims c f' :=
  ⟨hrequest, fun _ k => iff_of_false (hafter k) (hbefore k)⟩

theorem sameClaims_mapFailed (f : Start) (p : ForwardRecord → Bool) :
    f.SameClaims c
      { f with
        record := f.record.map fun r => if p r then { r with status := .failed } else r } := by
  refine ⟨rfl, fun _ k => or_congr Iff.rfl (and_congr_right fun _ => ?_)⟩
  constructor
  · rintro ⟨r', hr', hstarted, hk⟩
    obtain ⟨r, hr, rfl⟩ := Option.map_eq_some_iff.mp hr'
    refine ⟨r, hr, ?_⟩
    split_ifs at hstarted hk
    · exact ⟨hstarted, hk⟩
    · exact ⟨hstarted, hk⟩
  · rintro ⟨r, hr, hstarted, hk⟩
    refine ⟨_, Option.map_eq_some_iff.mpr ⟨r, hr, rfl⟩, ?_⟩
    split_ifs
    · exact ⟨hstarted, hk⟩
    · exact ⟨hstarted, hk⟩

theorem sameClaims_refreshed (f : Start) : f.SameClaims c f.refreshed :=
  f.sameClaims_mapFailed _

theorem sameClaims_marked (f : Start) : f.SameClaims c f.marked :=
  f.sameClaims_mapFailed _

theorem sameClaims_unbound (f : Start) : f.SameClaims c { f with listener := false } :=
  sameClaims_of rfl rfl rfl

/-- A record of a forward that is not a remote one, or whose listener was not opened, claims
nothing. -/
theorem claims_of_not_remote (hentry : f.entry = none)
    (hrecord : ∀ r, f.record = some r → r.listenerStarted = true →
      f.request.forwardType ≠ .remoteForward) (k : List Char) : ¬ f.Claims k := by
  rintro (hk | ⟨hremote, r, hr, hstarted, _⟩)
  · rw [hentry] at hk
    cases hk
  · exact hrecord r hr hstarted hremote

theorem claims_of_bare (hentry : f.entry = none) (hrecord : f.record = none) (k : List Char) :
    ¬ f.Claims k := by
  refine claims_of_not_remote hentry (fun r hr => ?_) k
  rw [hrecord] at hr
  cases hr

theorem claims_of_entry {k : List Char} (hentry : f.entry = some k) (hrecord : f.record = none)
    (l : List Char) : f.Claims l ↔ l = k := by
  rw [Claims, hentry]
  constructor
  · rintro (hl | ⟨_, r, hr, _⟩)
    · exact (Option.some.inj hl).symm
    · rw [hrecord] at hr
      cases hr
  · rintro rfl
    exact .inl rfl

/-- A record of a remote forward claims the entry of its port. -/
theorem claims_of_record {r : ForwardRecord} (hentry : f.entry = none)
    (hremote : f.request.forwardType = .remoteForward) (hrecord : f.record = some r)
    (hstarted : r.listenerStarted = true) (l : List Char) :
    f.Claims l ↔ l = f.key r.bindPort := by
  rw [Claims, hentry, hrecord]
  constructor
  · rintro (hl | ⟨_, r', hr', _, hk⟩)
    · cases hl
    · obtain rfl := Option.some.inj hr'
      exact hk.symm
  · rintro rfl
    exact .inr ⟨hremote, r, rfl, hstarted, rfl⟩

theorem entry_of_recorded {i : ℕ} (h : f.Wf i) (hrecord : f.record.isSome = true) :
    f.entry = none := by
  rcases h.recorded hrecord with hp | hp | hp
  all_goals
    rw [entry, hp]

end Start

/-! ### Owners -/

namespace State

variable {s s' : State} {c : ℕ}

/-- The owners of the entries of a connection after a step that leaves what its starts keep. -/
theorem owns_of_keeps
    (hstarts : Pool.Related (fun f f' => f'.request = f.request) s.starts s'.starts)
    (hkeeps : ∀ (i : ℕ) (f f' : Start), s.starts[i]? = some f → s'.starts[i]? = some f' →
      f.request.connectionId = c → ∀ k, s'.Keeps i f' k ↔ s.Keeps i f k) (i : ℕ) (k : List Char) :
    s'.Owns c i k ↔ s.Owns c i k := by
  constructor
  · rintro ⟨f', hf', hc, hk⟩
    obtain ⟨f, hf, hrequest⟩ := hstarts.back hf'
    rw [hrequest] at hc
    exact ⟨f, hf, hc, (hkeeps i f f' hf hf' hc k).mp hk⟩
  · rintro ⟨f, hf, hc, hk⟩
    obtain ⟨f', hf', hrequest⟩ := hstarts.forth hf
    exact ⟨f', hf', by rw [hrequest]; exact hc, (hkeeps i f f' hf hf' hc k).mpr hk⟩

/-- They do not change when the claims and what the stops hold do not. -/
theorem owns_congr (hstarts : Pool.Related (Start.SameClaims c) s.starts s'.starts)
    (htakes : ∀ (i : ℕ) (f : Start), s.starts[i]? = some f → f.request.connectionId = c →
      ∀ port, s'.Takes i port ↔ s.Takes i port) (i : ℕ) (k : List Char) :
    s'.Owns c i k ↔ s.Owns c i k := by
  refine owns_of_keeps (hstarts.mono fun _ _ hsame => hsame.request) (fun i f f' hf hf' hc k => ?_)
    i k
  obtain ⟨g, hg, hsame⟩ := hstarts.back hf'
  obtain rfl := Option.some.inj (hf.symm.trans hg)
  refine or_congr (hsame.claims hc k)
    (exists_congr fun port => and_congr (htakes i f hf hc port) ?_)
  rw [Start.key, Start.key, hsame.request]

/-- A stop that holds what it held, for the forwards of a kind. -/
theorem takes_set {j i : ℕ} {t t' : Stop} (ht : s.stops[j]? = some t)
    (hholding : ∀ x, x.forward = i → (t'.phase.holding = some x ↔ t.phase.holding = some x))
    (hstops : s'.stops = s.stops.set j t') (port : UInt16) :
    s'.Takes i port ↔ s.Takes i port := by
  constructor
  · rintro ⟨k, u, x, hu, hx, hi, hport⟩
    rw [hstops] at hu
    rcases Pool.getElem?_set hu with ⟨rfl, rfl⟩ | ⟨_, hold⟩
    · exact ⟨k, t, x, ht, (hholding x hi).mp hx, hi, hport⟩
    · exact ⟨k, u, x, hold, hx, hi, hport⟩
  · rintro ⟨k, u, x, hu, hx, hi, hport⟩
    by_cases hk : j = k
    · subst hk
      obtain rfl := Option.some.inj (ht.symm.trans hu)
      exact ⟨j, t', x, by rw [hstops]; exact Pool.getElem?_set_self ht, (hholding x hi).mpr hx, hi,
        hport⟩
    · exact ⟨k, u, x, by rw [hstops, List.getElem?_set_ne hk]; exact hu, hx, hi, hport⟩

theorem takes_congr (hstops : s'.stops = s.stops) (i : ℕ) (port : UInt16) :
    s'.Takes i port ↔ s.Takes i port := by
  rw [Takes, Takes, hstops]

theorem Wf.not_takes (h : s.Wf) {i : ℕ} {f : Start} (hf : s.starts[i]? = some f)
    (hphase : f.phase ≠ .returned (some i)) (port : UInt16) : ¬ s.Takes i port := by
  rintro ⟨j, t, x, ht, hx, rfl, _⟩
  obtain ⟨g, hg, hp, _⟩ := h.taken j t x ht hx
  obtain rfl := Option.some.inj (hf.symm.trans hg)
  exact hphase hp

/-- The owners after a start is replaced whose record no stop holds. -/
theorem owns_set {i : ℕ} {f f' : Start} (hf : s.starts[i]? = some f)
    (hrequest : f'.request = f.request) (hstarts : s'.starts = s.starts.set i f')
    (hstops : s'.stops = s.stops) (hnot : ∀ port, ¬ s.Takes i port) (j : ℕ) (k : List Char) :
    s'.Owns f.request.connectionId j k ↔
      j ≠ i ∧ s.Owns f.request.connectionId j k ∨ j = i ∧ f'.Claims k := by
  constructor
  · rintro ⟨g, hg, hc, hclaims⟩
    rw [hstarts] at hg
    rcases Pool.getElem?_set hg with ⟨rfl, rfl⟩ | ⟨hne, hold⟩
    · rcases hclaims with hk | ⟨port, hport, _⟩
      · exact .inr ⟨rfl, hk⟩
      · exact absurd ((takes_congr hstops j port).mp hport) (hnot port)
    · refine .inl ⟨hne, g, hold, hc, hclaims.imp_right fun ⟨port, hport, hk⟩ => ?_⟩
      exact ⟨port, (takes_congr hstops j port).mp hport, hk⟩
  · rintro (⟨hne, g, hg, hc, hclaims⟩ | ⟨rfl, hk⟩)
    · refine ⟨g, ?_, hc, hclaims.imp_right fun ⟨port, hport, hk⟩ => ?_⟩
      · rw [hstarts, List.getElem?_set_ne fun heq => hne heq.symm]
        exact hg
      · exact ⟨port, (takes_congr hstops j port).mpr hport, hk⟩
    · refine ⟨f', ?_, by rw [hrequest], .inl hk⟩
      rw [hstarts]
      exact Pool.getElem?_set_self hf

theorem owns_iff {i : ℕ} {f : Start} (hf : s.starts[i]? = some f) (hnot : ∀ port, ¬ s.Takes i port)
    (k : List Char) : s.Owns f.request.connectionId i k ↔ f.Claims k := by
  constructor
  · rintro ⟨g, hg, _, hclaims⟩
    obtain rfl := Option.some.inj (hf.symm.trans hg)
    rcases hclaims with hk | ⟨port, hport, _⟩
    · exact hk
    · exact absurd hport (hnot port)
  · intro hk
    exact ⟨f, hf, rfl, .inl hk⟩

theorem routes_setRoute_of_ne {c' : ℕ} (hne : c' ≠ c) (k : List Char) (v : Option ℕ) :
    (s.setRoute c k v).routes c' = s.routes c' :=
  Function.update_of_ne hne _ _

theorem routes_setRoute_self (c : ℕ) (k : List Char) (v : Option ℕ) :
    (s.setRoute c k v).routes c = Function.update (s.routes c) k v :=
  Function.update_self _ _ _

/-! ### The steps of a start -/

theorem Routed.same (h : s.Routed c)
    (hstarts : Pool.Related (Start.SameClaims c) s.starts s'.starts)
    (htakes : ∀ (i : ℕ) (f : Start), s.starts[i]? = some f → f.request.connectionId = c →
      ∀ port, s'.Takes i port ↔ s.Takes i port)
    (hroutes : s'.routes c = s.routes c) : s'.Routed c := by
  rw [Routed, hroutes]
  exact OwnedTable.congr h (owns_congr hstarts htakes)

theorem Routed.related (h : s.Routed c)
    (hstarts : Pool.Related (Start.SameClaims c) s.starts s'.starts)
    (hstops : s'.stops = s.stops) (hroutes : s'.routes c = s.routes c) : s'.Routed c :=
  h.same hstarts (fun i _ _ _ => takes_congr hstops i) hroutes

section Start

variable {i : ℕ} {f f' : Start}

theorem Routed.goOn (h : s.Routed c) (hf : s.starts[i]? = some f) (f' : Start)
    (hsame : f.SameClaims c f')
    (hstarts : s'.starts = s.starts.set i f') (hstops : s'.stops = s.stops)
    (hroutes : s'.routes c = s.routes c) : s'.Routed c := by
  refine h.related ?_ hstops hroutes
  rw [hstarts]
  exact Pool.related_set (fun _ g _ => .refl g) hf hsame

theorem Routed.other (h : s.Routed c) (hf : s.starts[i]? = some f)
    (hne : f.request.connectionId ≠ c) {env : Surroundings} (hstep : StartStep env s s' i f f')
    (hroutes : s'.routes c = s.routes c) : s'.Routed c := by
  rcases hstep.starts with hstarts | ⟨_, hstarts⟩
  · exact h.goOn hf f' (Start.sameClaims_of_ne hstep.request hne) hstarts hstep.stops hroutes
  · have hrefreshed : State.Routed { s with starts := s.starts.map Start.refreshed } c :=
      h.related (Pool.related_map Start.sameClaims_refreshed) rfl rfl
    have hget : (s.starts.map Start.refreshed)[i]? = some f.refreshed := by
      rw [List.getElem?_map, hf]
      rfl
    exact hrefreshed.goOn hget f' (Start.sameClaims_of_ne hstep.request hne) hstarts
      hstep.stops hroutes

theorem owns_write (hf : s.starts[i]? = some f) {k : List Char} (hrequest : f'.request = f.request)
    (hnot : ∀ port, ¬ s.Takes i port) (hbefore : ∀ l, ¬ f.Claims l)
    (hafter : ∀ l, f'.Claims l ↔ l = k) (hstarts : s'.starts = s.starts.set i f')
    (hstops : s'.stops = s.stops) (j : ℕ) (l : List Char) :
    s'.Owns f.request.connectionId j l ↔
      s.Owns f.request.connectionId j l ∨ j = i ∧ l = k := by
  rw [owns_set hf hrequest hstarts hstops hnot, hafter]
  by_cases hj : j = i
  · subst hj
    rw [owns_iff hf hnot]
    simp [hbefore l]
  · simp [hj]

theorem Routed.write (h : s.Routed f.request.connectionId) (hf : s.starts[i]? = some f) (f' : Start)
    {k : List Char} (hrequest : f'.request = f.request) (hnot : ∀ port, ¬ s.Takes i port)
    (hbefore : ∀ l, ¬ f.Claims l) (hafter : ∀ l, f'.Claims l ↔ l = k)
    (hfree : s.routes f.request.connectionId k = none) (hstarts : s'.starts = s.starts.set i f')
    (hstops : s'.stops = s.stops)
    (hroutes : s'.routes = (s.setRoute f.request.connectionId k (some i)).routes) :
    s'.Routed f.request.connectionId := by
  rw [Routed, hroutes, routes_setRoute_self]
  exact OwnedTable.insert h hfree (owns_write hf hrequest hnot hbefore hafter hstarts hstops)

theorem owns_erase (hf : s.starts[i]? = some f) {k : List Char} (hrequest : f'.request = f.request)
    (hnot : ∀ port, ¬ s.Takes i port) (hbefore : ∀ l, f.Claims l ↔ l = k)
    (hafter : ∀ l, ¬ f'.Claims l) (hstarts : s'.starts = s.starts.set i f')
    (hstops : s'.stops = s.stops) (j : ℕ) (l : List Char) :
    s'.Owns f.request.connectionId j l ↔
      s.Owns f.request.connectionId j l ∧ ¬ (j = i ∧ l = k) := by
  rw [owns_set hf hrequest hstarts hstops hnot]
  by_cases hj : j = i
  · subst hj
    rw [owns_iff hf hnot, hbefore]
    simp [hafter l]
  · simp [hj]

theorem Routed.erase (h : s.Routed f.request.connectionId) (hf : s.starts[i]? = some f) (f' : Start)
    {k : List Char} (hrequest : f'.request = f.request) (hnot : ∀ port, ¬ s.Takes i port)
    (hbefore : ∀ l, f.Claims l ↔ l = k) (hafter : ∀ l, ¬ f'.Claims l)
    (hstarts : s'.starts = s.starts.set i f') (hstops : s'.stops = s.stops)
    (hroutes : s'.routes = (s.setRoute f.request.connectionId k none).routes) :
    s'.Routed f.request.connectionId := by
  rw [Routed, hroutes, routes_setRoute_self]
  exact OwnedTable.remove h ((owns_iff hf hnot k).mpr ((hbefore k).mpr rfl))
    (owns_erase hf hrequest hnot hbefore hafter hstarts hstops)

theorem Routed.move (h : s.Routed f.request.connectionId) (hf : s.starts[i]? = some f) (f' : Start)
    {k k' : List Char} (hrequest : f'.request = f.request) (hnot : ∀ port, ¬ s.Takes i port)
    (hbefore : ∀ l, f.Claims l ↔ l = k) (hafter : ∀ l, f'.Claims l ↔ l = k') (hne : k' ≠ k)
    (hfree : s.routes f.request.connectionId k' = none) (hstarts : s'.starts = s.starts.set i f')
    (hstops : s'.stops = s.stops)
    (hroutes : s'.routes = ((s.setRoute f.request.connectionId k none).setRoute
      f.request.connectionId k' (some i)).routes) : s'.Routed f.request.connectionId := by
  rw [Routed, hroutes, routes_setRoute_self, routes_setRoute_self]
  have hremoved := OwnedTable.remove h ((owns_iff hf hnot k).mpr ((hbefore k).mpr rfl))
    (fun j l => Iff.rfl)
  refine OwnedTable.insert hremoved ?_ fun j l => ?_
  · rw [Function.update_of_ne hne]
    exact hfree
  · rw [owns_set hf hrequest hstarts hstops hnot, hafter]
    by_cases hj : j = i
    · subst hj
      rw [owns_iff hf hnot, hbefore]
      simp
    · simp [hj]

/-- A start leaves the routing table of another connection. -/
theorem afterStart_routes (s : State) (env : Surroundings) (i : ℕ) (f : Start)
    (action : StartAction)
    (hne : c ≠ f.request.connectionId) : (s.afterStart env i f action).routes c = s.routes c := by
  cases action with
  | find tunnelId =>
    simp only [State.afterStart]
    split
    · rfl
    · rfl
  | enter =>
    simp only [State.afterStart]
    split
    · split_ifs
      · rfl
      · rfl
      · rfl
    · rfl
  | bind port =>
    cases port with
    | none => rfl
    | some port => rfl
  | register port | signal | compare | registerRemote port =>
    simp only [State.afterStart]
    split_ifs
    · rfl
    · rfl
  | insertRoute => exact routes_setRoute_of_ne hne _ _
  | reply returned =>
    simp only [State.afterStart]
    split
    · split
      · rfl
      · rfl
    · rfl
  | refuse cancel =>
    simp only [State.afterStart]
    split_ifs
    · exact routes_setRoute_of_ne hne _ _
    · exact routes_setRoute_of_ne hne _ _
  | assign port =>
    simp only [State.afterStart]
    split_ifs
    · rfl
    · rw [routes_setRoute_of_ne hne, routes_setRoute_of_ne hne]
      rfl
  | unroute port => exact routes_setRoute_of_ne hne _ _
  | _ => rfl

/-- **A careful step of a start keeps the routing table of its connection.** -/
theorem Routed.afterStart (h : s.Routed f.request.connectionId) (hwf : s.Wf) {env : Surroundings}
    {action : StartAction} (hf : s.starts[i]? = some f) (he : f.Enabled env s i action)
    (hok : s.Careful (.startAct i action)) :
    (s.afterStart env i f action).Routed f.request.connectionId := by
  have hstart := hwf.starts i f hf
  -- Most steps leave the entry and the record.
  have hgo : ∀ (f' : Start) (s' : State), f'.request = f.request → f'.entry = f.entry →
      f'.record = f.record → s'.starts = s.starts.set i f' → s'.stops = s.stops →
      s'.routes = s.routes → s'.Routed f.request.connectionId := by
    intro f' s' hrequest hentry hrecord hstarts hstops hroutes
    exact h.goOn hf f' (Start.sameClaims_of hrequest hentry hrecord) hstarts hstops
      (by rw [hroutes])
  have hphase : ∀ {phase : StartPhase} (phase' : StartPhase) (s' : State), f.phase = phase →
      Start.entry { f with phase := phase' } = Start.entry { f with phase := phase } →
      s'.starts = s.starts.set i { f with phase := phase' } → s'.stops = s.stops →
      s'.routes = s.routes → s'.Routed f.request.connectionId := by
    intro phase phase' s' hp hentry hstarts hstops hroutes
    subst hp
    exact hgo { f with phase := phase' } s' rfl hentry rfl hstarts hstops hroutes
  -- A start that claims an entry has no record yet.
  have hentry : ∀ {phase : StartPhase} {k : List Char}, f.phase = phase → phase.bare = true →
      Start.entry { f with phase := phase } = some k → ∀ l, f.Claims l ↔ l = k := by
    intro phase k hp hbare hk
    subst hp
    exact Start.claims_of_entry hk (hstart.bare hbare).1
  have hbare : ∀ {phase : StartPhase}, f.phase = phase → phase.bare = true → f.record = none := by
    intro phase hp hbare
    subst hp
    exact (hstart.bare hbare).1
  have hnot : f.phase ≠ .returned (some i) → ∀ port, ¬ s.Takes i port := hwf.not_takes hf
  cases action with
  | getTunnelLock tunnelId => exact hphase .waitingTunnel _ he.1 rfl rfl rfl rfl
  | acquireTunnel => exact hphase .refreshing _ he.1 rfl rfl rfl rfl
  | refresh =>
    have hp : f.phase = .refreshing := he
    have hrefreshed : State.Routed { s with starts := s.starts.map Start.refreshed }
        f.request.connectionId :=
      h.related (Pool.related_map Start.sameClaims_refreshed) rfl rfl
    have hget : (s.starts.map Start.refreshed)[i]? = some f.refreshed := by
      rw [List.getElem?_map, hf]
      rfl
    refine hrefreshed.goOn hget { f.refreshed with phase := .finding }
      (Start.sameClaims_of rfl ?_ rfl) rfl rfl rfl
    rw [Start.entry, Start.entry, show f.refreshed.phase = .refreshing from hp]
  | find tunnelId =>
    simp only [State.afterStart]
    split
    · exact hphase (.returned _) _ he.1 rfl rfl rfl rfl
    · exact hphase .admitted _ he.1 rfl rfl rfl rfl
  | enter =>
    simp only [State.afterStart]
    split
    case _ connection _ =>
      split_ifs
      · refine hgo { f with origin := connection.origin, phase := .addressing } _ rfl ?_ rfl rfl rfl
          rfl
        rw [Start.entry, Start.entry, he.1]
      · refine hgo { f with origin := connection.origin, phase := .binding } _ rfl ?_
          rfl rfl rfl rfl
        rw [Start.entry, Start.entry, he.1]
      · exact hphase (.returned none) _ he.1 rfl rfl rfl rfl
    · exact hphase (.returned none) _ he.1 rfl rfl rfl rfl
  | bind port =>
    have hp : f.phase = .binding := he
    cases port with
    | none => exact hphase (.returned none) _ hp rfl rfl rfl rfl
    | some port =>
      refine hgo { f with phase := .bound port, listener := true } _ rfl ?_ rfl rfl rfl rfl
      rw [Start.entry, Start.entry, hp]
  | register port =>
    have hp : f.phase = .bound port := he
    have hlocal := hstart.opens (by rw [hp]; rfl)
    have hnone : f.entry = none := by rw [Start.entry, hp]
    simp only [State.afterStart]
    split_ifs
    · refine h.goOn hf { f with phase := .published, record := some (running port) }
        (Start.sameClaims_of_none rfl ?_ ?_) rfl rfl rfl
      · exact Start.claims_of_not_remote hnone fun _ _ _ => hlocal
      · exact Start.claims_of_not_remote rfl fun _ _ _ => hlocal
    · exact hphase .rollingBack _ hp rfl rfl rfl rfl
  | rollBack =>
    refine hgo { f with phase := .returned none, listener := false } _ rfl ?_ rfl rfl rfl rfl
    rw [Start.entry, Start.entry, show f.phase = .rollingBack from he]
  | signal =>
    have hp : f.phase = .published := he
    have hlocal := hstart.opens (by rw [hp]; rfl)
    have hnone : f.entry = none := by rw [Start.entry, hp]
    simp only [State.afterStart]
    split_ifs
    · exact hphase (.returned (some i)) _ hp rfl rfl rfl rfl
    · refine h.goOn hf { f with phase := .returned none, record := none }
        (Start.sameClaims_of_none rfl ?_ ?_) rfl rfl rfl
      · exact Start.claims_of_not_remote hnone fun _ _ _ => hlocal
      · exact Start.claims_of_bare rfl rfl
  | getAddressLock => exact hphase .waitingAddress _ he rfl rfl rfl rfl
  | acquireAddress => exact hphase .comparing _ he.1 rfl rfl rfl rfl
  | compare =>
    simp only [State.afterStart]
    split_ifs
    · exact hphase (.returned none) _ he rfl rfl rfl rfl
    · exact hphase .routing _ he rfl rfl rfl rfl
  | insertRoute =>
    have hp : f.phase = .routing := he
    have hrecord := hbare hp rfl
    have hfree : s.routes f.request.connectionId (f.key f.request.bindPort) = none := by
      simpa [State.Careful, hf] using hok
    exact h.write hf { f with phase := .requesting } rfl (hnot (by rw [hp]; rintro ⟨⟩))
      (Start.claims_of_bare (by rw [Start.entry, hp]) hrecord)
      (Start.claims_of_entry rfl hrecord) hfree rfl rfl rfl
  | reply returned =>
    simp only [State.afterStart]
    split
    · split
      · exact hphase (.assigned _) _ he rfl rfl rfl rfl
      · exact hphase (.refusing _) _ he rfl rfl rfl rfl
    · exact hphase (.refusing false) _ he rfl rfl rfl rfl
  | refuse cancel =>
    have hp : f.phase = .refusing cancel := he
    have hrecord := hbare hp rfl
    have hclaims := hentry hp rfl rfl
    simp only [State.afterStart]
    split_ifs
    · exact h.erase hf { f with phase := .withdrawing } rfl (hnot (by rw [hp]; rintro ⟨⟩))
        hclaims (Start.claims_of_bare rfl hrecord) rfl rfl rfl
    · exact h.erase hf { f with phase := .returned none } rfl (hnot (by rw [hp]; rintro ⟨⟩))
        hclaims (Start.claims_of_bare rfl hrecord) rfl rfl rfl
  | withdraw => exact hphase (.returned none) _ he rfl rfl rfl rfl
  | assign port =>
    have hp : f.phase = .assigned port := he
    have hrecord := hbare hp rfl
    have hclaims := hentry hp rfl rfl
    simp only [State.afterStart]
    split_ifs with hport
    · subst hport
      exact hphase (.routed _) _ hp rfl rfl rfl rfl
    · have hfree : s.routes f.request.connectionId (f.key port) = none := by
        simpa [State.Careful, hf, hport] using hok
      refine h.move hf { f with phase := .routed port } rfl (hnot (by rw [hp]; rintro ⟨⟩))
        hclaims (Start.claims_of_entry rfl hrecord) (fun heq => ?_) hfree rfl rfl rfl
      exact hport (forwardKey_injective heq).2
  | registerRemote port =>
    have hp : f.phase = .routed port := he
    simp only [State.afterStart]
    split_ifs
    · refine h.goOn hf { f with phase := .returned (some i), record := some (running port) }
        ⟨rfl, fun _ k => ?_⟩ rfl rfl rfl
      -- The record takes over the entry.
      have hremote := hstart.asks (by rw [hp]; rfl)
      rw [hentry hp rfl rfl]
      exact Start.claims_of_record
        (f := { f with phase := .returned (some i), record := some (running port) })
        rfl hremote rfl rfl k
    · exact hphase (.orphaned port) _ hp rfl rfl rfl rfl
  | cancelReply port => exact hphase (.unrouting port) _ he rfl rfl rfl rfl
  | unroute port =>
    have hp : f.phase = .unrouting port := he
    exact h.erase hf { f with phase := .returned none } rfl (hnot (by rw [hp]; rintro ⟨⟩))
      (hentry hp rfl rfl) (Start.claims_of_bare rfl (hbare hp rfl)) rfl rfl rfl
  | dropCaller =>
    refine hgo { f with phase := .dropped, listener := false } _ rfl ?_ rfl rfl rfl rfl
    have hnone : f.entry = none := by simpa [State.Careful, hf] using hok
    rw [hnone]
    rfl
  | markFailed => exact h.goOn hf f.marked f.sameClaims_marked rfl rfl rfl
  | endTask => exact h.goOn hf { f with listener := false } f.sameClaims_unbound rfl rfl rfl

end Start

/-! ### The steps of a stop -/

section Stop

variable {j : ℕ} {t : Stop}

theorem Routed.setStop (h : s.Routed c) (ht : s.stops[j]? = some t) (phase : StopPhase)
    (hholding : phase.holding = t.phase.holding)
    (hstarts : Pool.Related (Start.SameClaims c) s.starts s'.starts)
    (hstops : s'.stops = s.stops.set j { t with phase := phase }) (hroutes : s'.routes = s.routes) :
    s'.Routed c := by
  refine h.same hstarts (fun i _ _ _ => takes_set ht (fun x _ => ?_) hstops) (by rw [hroutes])
  rw [show ({ t with phase := phase } : Stop).phase = phase from rfl, hholding]

theorem Wf.takes_iff (h : s.Wf) (ht : s.stops[j]? = some t) {x : Taken}
    (hx : t.phase.holding = some x) (port : UInt16) :
    s.Takes x.forward port ↔ x.record.bindPort = port := by
  constructor
  · rintro ⟨k, u, y, hu, hy, hforward, hport⟩
    obtain rfl := h.single k j u t y x hu ht hy hx hforward
    obtain rfl := Option.some.inj (hu.symm.trans ht)
    obtain rfl := Option.some.inj (hy.symm.trans hx)
    exact hport
  · intro hport
    exact ⟨j, t, x, ht, hx, rfl, hport⟩

/-- No stop holds the record of a forward that is in the table. -/
theorem Wf.not_takes_of_recorded (h : s.Wf) {i : ℕ} {f : Start} {r : ForwardRecord}
    (hf : s.starts[i]? = some f) (hr : f.record = some r) (port : UInt16) : ¬ s.Takes i port := by
  rintro ⟨k, u, x, hu, hx, rfl, _⟩
  obtain ⟨g, hg, _, _, hnone, _⟩ := h.taken k u x hu hx
  obtain rfl := Option.some.inj (hf.symm.trans hg)
  rw [hr] at hnone
  cases hnone

theorem Wf.not_takes_of_set (h : s.Wf) (t' : Stop) (ht : s.stops[j]? = some t) {x : Taken}
    (hx : t.phase.holding = some x) (hnone : t'.phase.holding = none)
    (hstops : s'.stops = s.stops.set j t') (port : UInt16) : ¬ s'.Takes x.forward port := by
  rintro ⟨k, u, y, hu, hy, hforward, _⟩
  rw [hstops] at hu
  rcases Pool.getElem?_set hu with ⟨rfl, rfl⟩ | ⟨hne, hold⟩
  · rw [hnone] at hy
    cases hy
  · exact hne (h.single k j u t y x hold ht hy hx hforward)

/-- A stop that gives up a record holds those of the other forwards as before. -/
theorem takes_of_ne (t' : Stop) (ht : s.stops[j]? = some t) {x : Taken}
    (hx : t.phase.holding = some x) (hnone : t'.phase.holding = none)
    (hstops : s'.stops = s.stops.set j t') {i : ℕ} (hne : x.forward ≠ i) (port : UInt16) :
    s'.Takes i port ↔ s.Takes i port := by
  refine takes_set ht (fun y hy => ?_) hstops port
  rw [hnone, hx]
  constructor
  · intro heq
    cases heq
  · intro heq
    obtain rfl := Option.some.inj heq
    exact absurd hy hne

theorem getElem?_setRecord {i k : ℕ} {g : Start} {record : Option ForwardRecord}
    (h : (s.setRecord i record).starts[k]? = some g) :
    (k = i ∧ ∃ f, s.starts[i]? = some f ∧ g = { f with record := record }) ∨
      (k ≠ i ∧ s.starts[k]? = some g) := by
  simp only [setRecord] at h
  by_cases hi : i = k
  · subst hi
    rw [List.getElem?_modify] at h
    obtain ⟨f, hf, rfl⟩ := Option.map_eq_some_iff.mp h
    exact .inl ⟨rfl, f, hf, by simp⟩
  · rw [List.getElem?_modify_ne _ _ hi] at h
    exact .inr ⟨fun heq => hi heq.symm, h⟩

theorem setRecord_related (s : State) (i : ℕ) (record : Option ForwardRecord) :
    Pool.Related (fun f f' => f'.request = f.request) s.starts (s.setRecord i record).starts :=
  Pool.related_modify (R := fun f f' : Start => f'.request = f.request)
    (f := fun f => { f with record := record }) (fun _ => rfl) (fun _ => rfl) i

/-- **A stop takes the record of a remote forward from the table, and keeps its entry.** -/
theorem Routed.take (h : s.Routed c) (hwf : s.Wf) (ht : s.stops[j]? = some t) {i : ℕ} {f : Start}
    {r : ForwardRecord} (hf : s.starts[i]? = some f) (hr : f.record = some r)
    (hremote : f.request.forwardType = .remoteForward) (hstarted : r.listenerStarted = true)
    (hnone : t.phase.holding = none) (rest : List ℕ) :
    ((s.setRecord i none).setStop j { t with phase := .taken ⟨i, r, rest⟩ }).Routed c := by
  have htaken : ((s.setRecord i none).setStop j { t with phase := .taken ⟨i, r, rest⟩ }).Wf := by
    have htake := @Wf.take s hwf j i t f r rest ht hf hr
    rwa [if_pos (by rw [hstarted, hremote]; rfl)] at htake
  have hentry := Start.entry_of_recorded (hwf.starts i f hf) (by rw [hr]; rfl)
  refine OwnedTable.congr h (owns_of_keeps (s.setRecord_related i none) ?_)
  intro k g g' hg hg' _ l
  rcases getElem?_setRecord hg' with ⟨rfl, f', hf', rfl⟩ | ⟨hne, hold⟩
  · obtain rfl := Option.some.inj (hf.symm.trans hf')
    obtain rfl := Option.some.inj (hf.symm.trans hg)
    have hkept : s.Keeps k f l ↔ l = f.key r.bindPort := by
      rw [Keeps, Start.claims_of_record hentry hremote hr hstarted]
      simp [hwf.not_takes_of_recorded hf hr]
    have hset : ((s.setRecord k none).setStop j { t with phase := .taken ⟨k, r, rest⟩ }).stops[j]? =
        some { t with phase := .taken ⟨k, r, rest⟩ } :=
      Pool.getElem?_set_self ht
    have htakes := htaken.takes_iff hset (x := ⟨k, r, rest⟩) rfl
    rw [hkept, Keeps]
    constructor
    · rintro (hclaims | ⟨port, hport, rfl⟩)
      · exact absurd hclaims (Start.claims_of_bare (f := { f with record := none }) hentry rfl l)
      · rw [← (htakes port).mp hport]
        rfl
    · rintro rfl
      exact .inr ⟨r.bindPort, (htakes _).mpr rfl, rfl⟩
  · obtain rfl := Option.some.inj (hg.symm.trans hold)
    refine or_congr Iff.rfl (exists_congr fun port => and_congr_left fun _ => ?_)
    refine takes_set ht (fun x hx => ?_) rfl port
    rw [hnone]
    constructor
    · intro heq
      obtain rfl := Option.some.inj heq
      exact absurd hx.symm hne
    · intro heq
      cases heq

/-- **A stop puts the record back that it holds, with its entry.** -/
theorem Routed.restore (h : s.Routed c) (hwf : s.Wf) (ht : s.stops[j]? = some t) {x : Taken}
    (hx : t.phase = .restoring x) :
    ((s.setRecord x.forward (some { x.record with status := .failed })).finishStop j t false).Routed
      c := by
  have hholding : t.phase.holding = some x := by rw [hx]; rfl
  obtain ⟨f, hf, hphase, hremote, hnone, hstarted⟩ := hwf.taken j t x ht hholding
  have hentry : f.entry = none := by rw [Start.entry, hphase]
  refine OwnedTable.congr h (owns_of_keeps (s.setRecord_related x.forward _) ?_)
  intro k g g' hg hg' _ l
  rcases getElem?_setRecord hg' with ⟨rfl, f', hf', rfl⟩ | ⟨hne, hold⟩
  · obtain rfl := Option.some.inj (hf.symm.trans hf')
    obtain rfl := Option.some.inj (hf.symm.trans hg)
    have hnot := State.Wf.not_takes_of_set hwf { t with phase := .returned false } ht hholding rfl
      (show ((s.setRecord x.forward (some { x.record with status := .failed })).finishStop j t
        false).stops = _ from rfl)
    have hkept : s.Keeps x.forward f l ↔ l = f.key x.record.bindPort := by
      rw [Keeps]
      constructor
      · rintro (hclaims | ⟨port, hport, rfl⟩)
        · exact absurd hclaims (Start.claims_of_bare hentry hnone l)
        · rw [(hwf.takes_iff ht hholding port).mp hport]
      · rintro rfl
        exact .inr ⟨_, (hwf.takes_iff ht hholding _).mpr rfl, rfl⟩
    rw [hkept, Keeps]
    constructor
    · rintro (hclaims | ⟨port, hport, _⟩)
      · exact (Start.claims_of_record
          (f := { f with record := some { x.record with status := .failed } })
          hentry hremote rfl hstarted l).mp hclaims
      · exact absurd hport (hnot port)
    · intro hl
      exact .inl ((Start.claims_of_record
        (f := { f with record := some { x.record with status := .failed } })
        hentry hremote rfl hstarted l).mpr hl)
  · obtain rfl := Option.some.inj (hg.symm.trans hold)
    refine or_congr Iff.rfl (exists_congr fun port => and_congr_left fun _ => ?_)
    exact takes_of_ne { t with phase := .returned false } ht hholding rfl rfl
      (fun heq => hne heq.symm) port

/-- A stop gives up a record whose connection is another one. -/
theorem Routed.giveUp (h : s.Routed c) (ht : s.stops[j]? = some t) {x : Taken}
    (hx : t.phase.holding = some x)
    (hother : ∀ f, s.starts[x.forward]? = some f → f.request.connectionId ≠ c) (phase : StopPhase)
    (hnone : phase.holding = none) (hstarts : s'.starts = s.starts)
    (hstops : s'.stops = s.stops.set j { t with phase := phase })
      (hroutes : s'.routes c = s.routes c) :
    s'.Routed c := by
  refine h.same ?_ (fun i f hf hc => ?_) hroutes
  · rw [hstarts]
    exact Pool.related_refl .refl
  · refine takes_of_ne { t with phase := phase } ht hx hnone hstops ?_
    rintro rfl
    exact hother f hf hc

/-- **A stop removes the entry of the record that it holds.** -/
theorem Routed.unroute (h : s.Routed c) (hwf : s.Wf) (ht : s.stops[j]? = some t) {x : Taken}
    (hx : t.phase.holding = some x) {f : Start} (hf : s.starts[x.forward]? = some f)
    (phase : StopPhase) (hnone : phase.holding = none) (hstarts : s'.starts = s.starts)
    (hstops : s'.stops = s.stops.set j { t with phase := phase })
    (hroutes : s'.routes =
      (s.setRoute f.request.connectionId (f.key x.record.bindPort) none).routes) : s'.Routed c := by
  by_cases hc : f.request.connectionId = c
  · subst hc
    obtain ⟨g, hg, hphase, _, hrecord, _⟩ := hwf.taken j t x ht hx
    obtain rfl := Option.some.inj (hf.symm.trans hg)
    have hbare := Start.claims_of_bare (f := f) (by rw [Start.entry, hphase]) hrecord
    have hnot := hwf.not_takes_of_set { t with phase := phase } ht hx hnone hstops
    rw [Routed, hroutes, routes_setRoute_self]
    refine OwnedTable.remove h (i := x.forward) ?_ fun i l => ?_
    · exact ⟨f, hf, rfl, .inr ⟨_, (hwf.takes_iff ht hx _).mpr rfl, rfl⟩⟩
    · by_cases hi : i = x.forward
      · subst hi
        constructor
        · rintro ⟨g, hg, _, hclaims | ⟨port, hport, _⟩⟩
          · rw [hstarts] at hg
            obtain rfl := Option.some.inj (hf.symm.trans hg)
            exact absurd hclaims (hbare l)
          · exact absurd hport (hnot port)
        · rintro ⟨⟨g, hg, _, hclaims | ⟨port, hport, rfl⟩⟩, hne⟩
          · obtain rfl := Option.some.inj (hf.symm.trans hg)
            exact absurd hclaims (hbare l)
          · obtain rfl := Option.some.inj (hf.symm.trans hg)
            rw [(hwf.takes_iff ht hx port).mp hport] at hne
            exact absurd ⟨rfl, rfl⟩ hne
      · have hsame : s'.Owns f.request.connectionId i l ↔ s.Owns f.request.connectionId i l := by
          rw [Owns, Owns, hstarts]
          refine exists_congr fun g => and_congr_right fun _ => and_congr_right fun _ =>
            or_congr Iff.rfl (exists_congr fun port => and_congr_left fun _ => ?_)
          exact takes_of_ne { t with phase := phase } ht hx hnone hstops
            (fun heq => hi heq.symm) port
        rw [hsame]
        simp [hi]
  · refine h.giveUp ht hx (fun g hg => ?_) phase hnone hstarts hstops ?_
    · obtain rfl := Option.some.inj (hf.symm.trans hg)
      exact hc
    · rw [hroutes, routes_setRoute_of_ne fun heq => hc heq.symm]

/-- **A careful step of a stop keeps the routing table of a registered connection.** -/
theorem Routed.afterStop (h : s.Routed c) (hwf : s.Wf) {env : Surroundings} {action : StopAction}
    (ht : s.stops[j]? = some t) (he : t.Enabled s j action) (hok : s.Careful (.stopAct j action))
    (hlive : ∀ (i : ℕ) (f : Start), s.starts[i]? = some f → f.request.connectionId = c →
      (env.connections c).isSome = true) : (s.afterStop env j t action).Routed c := by
  have hrefl : Pool.Related (Start.SameClaims c) s.starts s.starts := Pool.related_refl .refl
  have hgo : ∀ {phase : StopPhase} (phase' : StopPhase) (s' : State), t.phase = phase →
      phase'.holding = phase.holding → s'.starts = s.starts →
      s'.stops = s.stops.set j { t with phase := phase' } → s'.routes = s.routes →
      s'.Routed c := by
    intro phase phase' s' hp hholding hstarts hstops hroutes
    subst hp
    refine h.setStop ht phase' hholding ?_ hstops hroutes
    rw [hstarts]
    exact hrefl
  have hclosed : ∀ (i : ℕ) (phase' : StopPhase) (s' : State),
      phase'.holding = t.phase.holding → s'.starts = (s.closeListener i).starts →
      s'.stops = s.stops.set j { t with phase := phase' } → s'.routes = s.routes →
      s'.Routed c := by
    intro i phase' s' hholding hstarts hstops hroutes
    refine h.setStop ht phase' hholding ?_ hstops hroutes
    rw [hstarts]
    exact Pool.related_modify .refl Start.sameClaims_unbound i
  cases action with
  | readTunnel forward =>
    simp only [State.afterStop]
    split
    · exact hgo (.locking _) _ he.1 rfl rfl rfl rfl
    · exact hgo (.taking [forward]) _ he.1 rfl rfl rfl rfl
  | getTunnelLock tunnelId => exact hgo (.waitingTunnel tunnelId) _ he rfl rfl rfl rfl
  | acquireTunnel tunnelId =>
    refine hgo _ _ he.1 ?_ rfl rfl rfl
    split <;> rfl
  | list tunnelId => exact hgo (.taking _) _ he rfl rfl rfl rfl
  | take forward rest =>
    have hp : t.phase = .taking (forward :: rest) := he
    simp only [State.afterStop]
    split
    case _ f r hmatching =>
      obtain ⟨hf, hr⟩ := matching_eq_some hmatching
      split_ifs with hremote
      · obtain ⟨hstarted, hremote⟩ := Bool.and_eq_true_iff.mp hremote
        exact h.take hwf ht hf hr (of_decide_eq_true hremote) hstarted (by rw [hp]; rfl) rest
      · refine h.setStop ht (.aborting forward rest) (by rw [hp]; rfl) ?_ rfl rfl
        -- A local forward claims no entry.
        have hentry := Start.entry_of_recorded (hwf.starts forward f hf) (by rw [hr]; rfl)
        refine Pool.related_modify_of .refl fun g hg => ?_
        obtain rfl := Option.some.inj (hf.symm.trans hg)
        refine Start.sameClaims_of_none rfl (Start.claims_of_not_remote hentry ?_)
          (Start.claims_of_bare hentry rfl)
        intro r' hr' hstarted hremote'
        obtain rfl := Option.some.inj (hr.symm.trans hr')
        exact hremote (by rw [hstarted, hremote']; rfl)
    case _ =>
      split
      · exact hgo (.returned false) _ hp rfl rfl rfl rfl
      · exact hgo (.taking rest) _ hp rfl rfl rfl rfl
  | finish => exact hgo (.returned true) _ he rfl rfl rfl rfl
  | getAddressLock x =>
    simp only [State.afterStop]
    split
    · exact hgo (.waitingAddress x) _ he rfl rfl rfl rfl
    · exact h
  | acquireAddress x => exact hgo (.looking x) _ he.1 rfl rfl rfl rfl
  | look x =>
    have hp : t.phase = .looking x := he
    simp only [State.afterStop]
    split
    · exact hgo (.canceling x) _ hp rfl rfl rfl rfl
    case _ hnone =>
      -- The connection of the record was not registered.
      refine h.giveUp ht (by rw [hp]; rfl) (fun f hf hc => ?_)
        (.aborting x.forward x.rest) rfl rfl rfl
        rfl
      have hsome := hlive x.forward f hf hc
      rw [hf, Option.bind_some, hc] at hnone
      rw [hnone] at hsome
      cases hsome
  | cancelReply x ok =>
    refine hgo _ _ he ?_ rfl rfl rfl
    split_ifs <;> rfl
  | unroute x =>
    have hp : t.phase = .unrouting x := he
    simp only [State.afterStop]
    split
    case _ c' key haddress =>
      obtain ⟨f, hf, heq⟩ := Option.map_eq_some_iff.mp haddress
      obtain ⟨rfl, rfl⟩ := Prod.mk.inj heq
      exact h.unroute hwf ht (by rw [hp]; rfl) hf (.aborting x.forward x.rest) rfl rfl rfl rfl
    · exact h
  | restore x => exact h.restore hwf ht he
  | abort forward rest =>
    have hp : t.phase = .aborting forward rest := he
    exact hclosed forward (.taking rest) _ (by rw [hp]; rfl) rfl rfl rfl
  | dropCaller =>
    have hnone : t.phase.holding = none := by simpa [State.Careful, ht] using hok
    simp only [State.afterStop]
    split
    · exact hclosed _ .dropped _ hnone.symm rfl rfl rfl
    · refine h.setStop ht .dropped hnone.symm ?_ rfl rfl
      exact hrefl

end Stop

/-! ### The calls -/

theorem Routed.add (h : s.Routed c) (hwf : s.Wf) {f : Start} (hclaims : ∀ k, ¬ f.Claims k) :
    State.Routed { s with starts := s.starts ++ [f] } c := by
  have hnot : ∀ port, ¬ s.Takes s.starts.length port := by
    rintro port ⟨j, t, x, ht, hx, hforward, _⟩
    obtain ⟨g, hg, _⟩ := hwf.taken j t x ht hx
    rw [hforward, List.getElem?_eq_none (Nat.le_refl _)] at hg
    cases hg
  refine OwnedTable.congr h fun i k => ?_
  constructor
  · rintro ⟨g, hg, hc, hk⟩
    rcases Pool.getElem?_add hg with ⟨rfl, rfl⟩ | hold
    · rcases hk with hk | ⟨port, hport, _⟩
      · exact absurd hk (hclaims k)
      · exact absurd hport (hnot port)
    · exact ⟨g, hold, hc, hk⟩
  · rintro ⟨g, hg, hc, hk⟩
    exact ⟨g, Pool.getElem?_add_left hg, hc, hk⟩

theorem Routed.addStop (h : s.Routed c) (request : StopRequest) :
    State.Routed { s with stops := s.stops ++ [Stop.new request] } c := by
  refine h.same (Pool.related_refl .refl) (fun i _ _ _ port => ?_) rfl
  constructor
  · rintro ⟨j, t, x, ht, hx, hrest⟩
    rcases Pool.getElem?_add ht with ⟨_, rfl⟩ | hold
    · cases request <;> cases hx
    · exact ⟨j, t, x, hold, hx, hrest⟩
  · rintro ⟨j, t, x, ht, hx, hrest⟩
    exact ⟨j, t, x, Pool.getElem?_add_left ht, hx, hrest⟩

/-- **A careful step of a call keeps the routing table of a registered connection.** -/
theorem Routed.step (h : s.Routed c) (hwf : s.Wf) {env : Surroundings} {event : Event}
    (hstep : Forward.step env s event = some s') (hok : s.Careful event)
    (hlive : ∀ (i : ℕ) (f : Start), s.starts[i]? = some f → f.request.connectionId = c →
      (env.connections c).isSome = true) : s'.Routed c := by
  cases event with
  | start request =>
    obtain ⟨connection, _, -, rfl⟩ := Pool.act_eq_some.mp hstep
    refine h.add hwf (Start.claims_of_bare ?_ rfl)
    rw [Start.entry, Start.new]
    split_ifs <;> rfl
  | recordFailure request =>
    obtain ⟨connection, _, -, rfl⟩ := Pool.act_eq_some.mp hstep
    refine h.add hwf (Start.claims_of_not_remote rfl fun r hr hstarted => ?_)
    obtain rfl := Option.some.inj hr
    cases hstarted
  | stop request =>
    obtain rfl := Option.some.inj hstep
    exact h.addStop request
  | refresh =>
    obtain rfl := Option.some.inj hstep
    exact h.related (Pool.related_map Start.sameClaims_refreshed) rfl rfl
  | startAct i action =>
    obtain ⟨f, hf, he, rfl⟩ := Pool.act_eq_some.mp hstep
    by_cases hc : f.request.connectionId = c
    · subst hc
      exact h.afterStart hwf hf he hok
    · obtain ⟨f', hf'⟩ := startStep_afterStart (hwf.starts i f hf) he
      exact h.other hf hc hf' (s.afterStart_routes env i f action fun heq => hc heq.symm)
  | stopAct j action =>
    obtain ⟨t, ht, he, rfl⟩ := Pool.act_eq_some.mp hstep
    exact h.afterStop hwf ht he hok hlive

end State

/-! ### Teardowns -/

/-- A connection that was not taken out of the registry. -/
def Live (s : Runtime) (c : ℕ) : Prop :=
  ∀ r, s.connections[c]? = some r → r.stage = .registered

/-- The forwards that a teardown has listed and not yet canceled. -/
def listed : Stage → List ℕ
  | .forwardsTaking forwards => forwards
  | .forwardsCanceling taken => taken.map Prod.fst
  | _ => []

/-- A teardown lists forwards of its own connection. -/
def Lists (s : Runtime) : Prop :=
  ∀ (c : ℕ) (r : ConnectionRecord), s.connections[c]? = some r → ∀ i ∈ listed r.stage,
    ∃ f, s.forwards.starts[i]? = some f ∧ f.request.connectionId = c

/-- A connection that was not taken out of the registry by a step was not before. -/
theorem Live.back {s s' : Runtime} {event : Remote.Event} {c : ℕ} (h : Live s' c)
    (hstep : Runtime.machine.step s event = some s') : Live s c := by
  intro r hr
  obtain ⟨r', hr', _⟩ := Runtime.connections_of_step hstep hr
  have hregistered := h r' hr'
  rcases Runtime.stageMove_of_step hstep hr' with ⟨r₀, hr₀, hmove⟩ | ⟨hnone, _⟩
  · obtain rfl := Option.some.inj (hr.symm.trans hr₀)
    cases hmove with
    | same => exact hregistered
    | begin _ _ hstage => exact hstage
    | teardown action =>
      cases action <;> cases hregistered
    | drained _ hstage => exact hstage
  · rw [hr] at hnone
    cases hnone

/-- **A teardown goes on with forwards of its own connection.** -/
theorem Lists.step {s s' : Runtime} {event : Remote.Event} (h : Lists s) (hwf : s.forwards.Wf)
    (hstep : Runtime.machine.step s event = some s') : Lists s' := by
  intro c r' hr' i hi
  have hkept : (∃ f, s.forwards.starts[i]? = some f ∧ f.request.connectionId = c) →
      ∃ f, s'.forwards.starts[i]? = some f ∧ f.request.connectionId = c := by
    rintro ⟨f, hf, hc⟩
    obtain ⟨f', hf', hgoes⟩ := (going_of_step hwf hstep).forth i f hf
    exact ⟨f', hf', by rw [hgoes.request]; exact hc⟩
  rcases Runtime.stageMove_of_step hstep hr' with ⟨r, hr, hmove⟩ | ⟨_, hregistered, _⟩
  · cases hmove with
    | same => exact hkept (h c r' hr i hi)
    | begin => cases hi
    | teardown action _ he =>
      refine hkept ?_
      cases action with
      | listForwards =>
        obtain ⟨f, hf, _, hc⟩ := Runtime.mem_forwardsOf.mp hi
        exact ⟨f, hf, hc⟩
      | takeForwards forwards =>
        have hp : r.stage = .forwardsTaking forwards := he
        obtain ⟨x, hx, rfl⟩ := List.mem_map.mp hi
        obtain ⟨k, hk, hx⟩ := List.mem_filterMap.mp hx
        obtain ⟨f, _, hx⟩ := Option.bind_eq_some_iff.mp hx
        obtain ⟨_, _, rfl⟩ := Option.map_eq_some_iff.mp hx
        exact h c r hr k (by rw [hp]; exact hk)
      | cancelForward forward record rest =>
        have hp : r.stage = .forwardsCanceling ((forward, record) :: rest) := he
        exact h c r hr i (by rw [hp]; exact List.mem_cons_of_mem _ hi)
      | _ => cases hi
    | drained => cases hi
  · rw [hregistered] at hi
    cases hi

/-- What holds of the routing tables in every careful run. -/
structure RoutesAgree (s : Runtime) : Prop where
  kept : Kept s
  covers : s.ShutdownCovers
  lists : Lists s
  routed : ∀ c, Live s c → s.forwards.Routed c

/-- A connection that has forwards and was not taken out of the registry is registered. -/
theorem RoutesAgree.registered {s : Runtime} (h : RoutesAgree s) {c i : ℕ} {f : Start}
    (hlive : Live s c) (hf : s.forwards.starts[i]? = some f) (hc : f.request.connectionId = c) :
    (s.connection c).isSome = true := by
  obtain ⟨r, hr, _⟩ := h.kept.origins i f hf
  rw [hc] at hr
  exact Runtime.connection_isSome.mpr ⟨r, hr, hlive r hr⟩

theorem RoutesAgree.drained {s : Runtime} (h : RoutesAgree s) {c i : ℕ} {f : Start}
    (hlive : Live s c) (hf : s.forwards.starts[i]? = some f) (htodo : s.shutdown.todo = some []) :
    f.request.connectionId ≠ c := by
  intro hc
  cases h.covers [] htodo c (h.registered hlive hf hc)

theorem State.Routed.cancelForward {s : Runtime} {c i : ℕ} (h : s.forwards.Routed c)
    (hne : ∀ f, s.forwards.starts[i]? = some f → f.request.connectionId ≠ c) (r : ForwardRecord)
    (found : Bool) : (s.cancelForward i r found).forwards.Routed c := by
  unfold Runtime.cancelForward
  split
  case _ f hf =>
    have hclosed : Pool.Related (Start.SameClaims c) s.forwards.starts
        (s.forwards.closeListener i).starts :=
      Pool.related_modify .refl Start.sameClaims_unbound i
    split_ifs
    · refine h.related hclosed rfl ?_
      exact State.routes_setRoute_of_ne (fun heq => hne f hf heq.symm) _ _
    · exact h.related hclosed rfl rfl
  case _ => exact h

/-- Forwards of another connection are taken from the table. -/
theorem State.Routed.takeForwards {s : Runtime} {c : ℕ} (h : s.forwards.Routed c) {ids : List ℕ}
    (hne : ∀ i ∈ ids, ∀ f, s.forwards.starts[i]? = some f → f.request.connectionId ≠ c) :
    (s.takeForwards ids).forwards.Routed c := by
  refine h.related (Pool.related_mapIdx fun i f hf => ?_) rfl rfl
  split_ifs with hi
  · exact Start.sameClaims_of_ne rfl (hne i (List.contains_iff_mem.mp hi) f hf)
  · exact .refl f

/-- **A careful step keeps the routing tables.** -/
theorem RoutesAgree.step {s s' : Runtime} {event : Remote.Event} (h : RoutesAgree s)
    (hok : RoutesSafely s event) (hstep : Runtime.machine.step s event = some s') :
    RoutesAgree s' := by
  refine ⟨step_kept h.kept hstep, h.covers.step hstep, h.lists.step h.kept.wf hstep, ?_⟩
  intro c hlive'
  have hlive := hlive'.back hstep
  have hrouted := h.routed c hlive
  -- What a teardown has listed belongs to a connection that is not registered any more.
  have hother : ∀ (c' : ℕ) (q : ConnectionRecord) (i : ℕ) (f : Start),
      s.connections[c']? = some q → i ∈ listed q.stage → s.forwards.starts[i]? = some f →
      f.request.connectionId ≠ c := by
    rintro c' q i f hq hi hf rfl
    obtain ⟨g, hg, hc'⟩ := h.lists c' q hq i hi
    obtain rfl := Option.some.inj (hf.symm.trans hg)
    rw [hc'] at hlive
    rw [hlive q hq] at hi
    cases hi
  have hmoved := moved_of_step hstep
  generalize s'.forwards = forwards at hmoved ⊢
  cases hmoved with
  | same => exact hrouted
  | call event _ he hcall =>
    subst he
    exact hrouted.step h.kept.wf hcall hok fun i f hf hc => h.registered hlive hf hc
  | take ids hids =>
    refine hrouted.takeForwards fun i hi f hf => ?_
    rcases hids with ⟨c', q, hq, hstage⟩ | hshutdown
    · exact hother c' q i f hq (by rw [hstage]; exact hi) hf
    · exact h.drained hlive hf (by rw [hshutdown]; rfl)
  | cancel i r found hi =>
    refine hrouted.cancelForward (fun f hf => ?_) r found
    rcases hi with ⟨c', q, rest, hq, hstage⟩ | ⟨rest, hshutdown⟩
    · exact hother c' q i f hq (by rw [hstage]; exact List.mem_cons_self) hf
    · exact h.drained hlive hf (by rw [hshutdown]; rfl)

theorem routesAgree_init : RoutesAgree Runtime.machine.init where
  kept := @kept_of_run _ [] rfl
  covers := Runtime.shutdownCovers_init
  lists c r hr := by cases hr
  routed c _ k i := by
    constructor
    · intro h
      cases h
    · rintro ⟨f, hf, _⟩
      cases hf

theorem routesAgree_of_run {s : Runtime} {events : List Remote.Event}
    (hok : Runtime.machine.Meets RoutesSafely events) (h : Runtime.machine.run events = some s) :
    RoutesAgree s :=
  Runtime.machine.run_invariant_of routesAgree_init
    (fun _ _ _ hs hsafe hstep => hs.step hsafe hstep) hok h

/-! ### Settled connections -/

theorem Start.entry_of_settled {f : Start}
    (h : (!f.waits && f.phase ≠ .published) = true) : f.entry = none := by
  unfold Start.waits at h
  unfold Start.entry
  split at h
  all_goals simp_all

/-- What is owned while no start on the connection and no stop is in progress. -/
theorem State.owns_of_settled {s : State} {c i : ℕ} {k : List Char} (h : s.settledOn c = true) :
    s.Owns c i k ↔ ∃ f r, s.starts[i]? = some f ∧ f.request.connectionId = c ∧
      f.request.forwardType = .remoteForward ∧ f.record = some r ∧ r.listenerStarted = true ∧
      f.key r.bindPort = k := by
  simp only [settledOn, Bool.and_eq_true, List.all_eq_true] at h
  obtain ⟨hstarts, hstops⟩ := h
  constructor
  · rintro ⟨f, hf, hc, (hk | ⟨hremote, r, hr, hstarted, hk⟩) | ⟨port, ⟨j, t, x, ht, hx, _⟩, _⟩⟩
    · have hover := hstarts f (List.mem_of_getElem? hf)
      rw [Start.entry_of_settled (by simpa [hc] using hover)] at hk
      cases hk
    · exact ⟨f, r, hf, hc, hremote, hr, hstarted, hk⟩
    · have hover := hstops t (List.mem_of_getElem? ht)
      simp only [Stop.waits] at hover
      cases hp : t.phase <;> rw [hp] at hover hx <;> simp_all [StopPhase.holding]
  · rintro ⟨f, r, hf, hc, hremote, hr, hstarted, hk⟩
    exact ⟨f, hf, hc, .inl (.inr ⟨hremote, r, hr, hstarted, hk⟩)⟩

/-- **The routing table of a connection agrees with the forwards.**  In every run in which no
caller goes away with an entry in its hands and no start writes an entry over another one,
whenever no start on a registered connection and no stop is in progress: a running remote forward
has exactly its own entry, an entry belongs to a registered remote forward, and so a channel from
the server goes to a registered forward with the address of the channel. -/
theorem routes_of_run {s : Runtime} {events : List Remote.Event}
    (hok : Runtime.machine.Meets RoutesSafely events) (h : Runtime.machine.run events = some s)
    {c : ℕ} (hc : (s.connection c).isSome = true) (hsettled : s.forwards.settledOn c = true) :
    (∀ (i : ℕ) (f : Start) (r : ForwardRecord), s.forwards.starts[i]? = some f →
      f.request.connectionId = c → f.request.forwardType = .remoteForward → f.record = some r →
      r.status = .running → ∀ k, s.forwards.routes c k = some i ↔ k = f.key r.bindPort) ∧
    (∀ (k : List Char) (i : ℕ), s.forwards.routes c k = some i →
      ∃ f r, s.forwards.starts[i]? = some f ∧ f.request.connectionId = c ∧
        f.request.forwardType = .remoteForward ∧ f.record = some r ∧ k = f.key r.bindPort) ∧
    ∀ (connectedAddress : List Char) (connectedPort : UInt32) (i : ℕ),
      s.forwards.serverChannelOpenForwardedTcpip c connectedAddress connectedPort = some i →
      ∃ f r, s.forwards.starts[i]? = some f ∧ f.request.connectionId = c ∧
        f.request.forwardType = .remoteForward ∧ f.record = some r ∧
        f.request.bindHost = connectedAddress ∧
        normalizeForwardedChannelPort connectedPort = some r.bindPort := by
  have hagree := routesAgree_of_run hok h
  have hlive : Live s c := by
    intro r hr
    obtain ⟨r', hr', hstage⟩ := Runtime.connection_isSome.mp hc
    obtain rfl := Option.some.inj (hr.symm.trans hr')
    exact hstage
  have howned : ∀ (k : List Char) (i : ℕ), s.forwards.routes c k = some i ↔
      ∃ f r, s.forwards.starts[i]? = some f ∧ f.request.connectionId = c ∧
        f.request.forwardType = .remoteForward ∧ f.record = some r ∧ r.listenerStarted = true ∧
        f.key r.bindPort = k :=
    fun k i => (hagree.routed c hlive k i).trans (State.owns_of_settled hsettled)
  refine ⟨?_, ?_, ?_⟩
  · intro i f r hf hfc hremote hr hrunning k
    rw [howned]
    constructor
    · rintro ⟨f', r', hf', _, _, hr', _, hk⟩
      obtain rfl := Option.some.inj (hf.symm.trans hf')
      obtain rfl := Option.some.inj (hr.symm.trans hr')
      exact hk.symm
    · rintro rfl
      rcases (hagree.kept.wf.starts i f hf).started r hr with hfailed | hstarted
      · rw [hrunning] at hfailed
        cases hfailed
      · exact ⟨f, r, hf, hfc, hremote, hr, hstarted, rfl⟩
  · intro k i hentry
    obtain ⟨f, r, hf, hfc, hremote, hr, _, hk⟩ := (howned k i).mp hentry
    exact ⟨f, r, hf, hfc, hremote, hr, hk.symm⟩
  · intro connectedAddress connectedPort i hchannel
    obtain ⟨port, hport, hentry⟩ := Option.bind_eq_some_iff.mp hchannel
    obtain ⟨f, r, hf, hfc, hremote, hr, _, hk⟩ := (howned _ i).mp hentry
    obtain ⟨hhost, rfl⟩ := forwardKey_injective hk
    exact ⟨f, r, hf, hfc, hremote, hr, hhost, hport⟩

/-- A remote forward without a tunnel. -/
def remoteExample : Request :=
  { exampleRequest with forwardType := .remoteForward, tunnelId := none, bindPort := 80 }

/-- A start has written its entry, and asks the server. -/
def requesting : List Remote.Event :=
  [.connect ⟨1, .desktop⟩, .forward (.start remoteExample), .forward (.startAct 0 .enter),
    .forward (.startAct 0 .getAddressLock), .forward (.startAct 0 .acquireAddress),
    .forward (.startAct 0 .compare), .forward (.startAct 0 .insertRoute)]

/-- The server assigns the port, and the start returns. -/
def replied : List Remote.Event :=
  [.forward (.startAct 0 (.reply (some 80))), .forward (.startAct 0 (.assign 80)),
    .forward (.startAct 0 (.registerRemote 80))]

/-- The forward is running, and has its entry. -/
theorem routes_of_run_replied :
    ∃ s, Runtime.machine.run (requesting ++ replied) = some s ∧
      s.forwards.routes 0 (forwardKey ['h'] 80) = some 0 := by
  have hok : Runtime.machine.Meets RoutesSafely (requesting ++ replied) := by
    decide +kernel
  have hview : ((Runtime.machine.run (requesting ++ replied)).map fun s =>
      ((s.connection 0).isSome, s.forwards.settledOn 0, s.forwards.starts[0]?)) =
      some (true, true, some ⟨remoteExample, .desktop, .returned (some 0),
        some (State.running 80), false⟩) := by
    decide +kernel
  obtain ⟨s, hs, hview⟩ := Option.map_eq_some_iff.mp hview
  simp only [Prod.mk.injEq] at hview
  obtain ⟨hc, hsettled, hf⟩ := hview
  have hroutes := (routes_of_run hok hs hc hsettled).1 0 _ _ hf rfl rfl rfl rfl
  exact ⟨s, hs, (hroutes _).mpr rfl⟩

/-- **The entry of a start can be left behind.**  Its caller goes away while the server is
asked. -/
theorem not_always_routed :
    ¬ ∀ (events : List Remote.Event) (s : Runtime), Runtime.machine.run events = some s →
      ∀ c, (s.connection c).isSome = true → s.forwards.settledOn c = true →
        ∀ (k : List Char) (i : ℕ), s.forwards.routes c k = some i →
          ∃ f r, s.forwards.starts[i]? = some f ∧ f.record = some r := by
  intro hall
  have hview : ((Runtime.machine.run (requesting ++ [.forward (.startAct 0 .dropCaller)])).map
      fun s => ((s.connection 0).isSome, s.forwards.settledOn 0,
        s.forwards.routes 0 (forwardKey ['h'] 80), s.forwards.starts.map Start.record)) =
      some (true, true, some 0, [none]) := by
    decide +kernel
  obtain ⟨s, hs, hview⟩ := Option.map_eq_some_iff.mp hview
  simp only [Prod.mk.injEq] at hview
  obtain ⟨hc, hsettled, hentry, hrecords⟩ := hview
  obtain ⟨f, r, hf, hr⟩ := hall _ s hs 0 hc hsettled _ 0 hentry
  have hget := congrArg (fun l => l[0]?) hrecords
  rw [List.getElem?_map, hf] at hget
  obtain hnone := Option.some.inj hget
  rw [hr] at hnone
  cases hnone

end Forward
end Remote
end HelmSsh
