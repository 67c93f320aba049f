import LiveHls.Proofs.Gateway.Changes
import LiveHls.Proofs.Stream.Attendance
/-! Clients that wait and turns that come up. The stream that a client waits for knows its request,
and each stream is queued once for each of its turns. With every turn less is left to do, so after
some turns nobody waits except for what the streams do not have yet. -/
namespace LiveHls

/-- Nothing has been sent to the client of a call before. -/
def Act.Fresh (act : Act) : Prop :=
  ∀ call asker now, act.call? = some (call, asker, now) → call.headersSent = false

namespace Origin

variable {o after : Origin} {streams : List Stream} {queue : List Nat} {clients : List Client}
  {i : Nat} {s t : Stream}

/-! ### Clients and the queue -/

/-- The stream that a client waits for knows its request. -/
def Attended (streams : List Stream) (clients : List Client) : Prop :=
  ∀ client ∈ clients, ∃ s, streams[client.stream]? = some s ∧ s.Knows client.request

/-- Each stream is queued once for each of its turns. -/
structure Balanced (streams : List Stream) (queue : List Nat) : Prop where
  turns : ∀ i s, streams[i]? = some s → queue.count i = s.turns.length
  known : ∀ i ∈ queue, i < streams.length

theorem Attended.set (h : Attended streams clients) (found : streams[i]? = some s)
    (keeps : ∀ client ∈ clients, s.Knows client.request → t.Knows client.request) :
    Attended (streams.set i t) clients := by
  intro client member
  obtain ⟨u, there, known⟩ := h client member
  by_cases own : i = client.stream
  · subst own
    rw [found] at there
    cases there
    exact ⟨t, List.getElem?_set_self (List.getElem?_eq_some_iff.mp found).1, keeps client member known⟩
  · exact ⟨u, by rw [List.getElem?_set_ne own, there], known⟩

theorem Attended.add (h : Attended streams clients) (s : Stream) : Attended (streams ++ [s]) clients := by
  intro client member
  obtain ⟨u, there, known⟩ := h client member
  refine ⟨u, ?_, known⟩
  rw [List.getElem?_append_left (List.getElem?_eq_some_iff.mp there).1, there]

/-- A stream has changed, and the queue has changed by its turns only. -/
theorem Balanced.set (h : Balanced streams queue) {later : List Nat} (found : streams[i]? = some s)
    (own : later.count i = t.turns.length) (others : ∀ j, j ≠ i → later.count j = queue.count j) :
    Balanced (streams.set i t) later := by
  have there := (List.getElem?_eq_some_iff.mp found).1
  constructor
  · intro j u place
    by_cases same : i = j
    · subst same
      rw [List.getElem?_set_self there] at place
      cases place
      exact own
    · rw [List.getElem?_set_ne same] at place
      rw [others j (Ne.symm same)]
      exact h.turns j u place
  · intro j member
    rw [List.length_set]
    by_cases same : j = i
    · exact same ▸ there
    · apply h.known
      rw [← List.count_pos_iff, ← others j same]
      exact List.count_pos_iff.mpr member

theorem Balanced.grow (h : Balanced streams queue) (found : streams[i]? = some s)
    (grows : s.turns.length ≤ t.turns.length) :
    Balanced (streams.set i t) (queue ++ List.replicate (t.turns.length - s.turns.length) i) := by
  refine h.set found ?_ fun j other => ?_
  · rw [List.count_append, List.count_replicate_self, h.turns i s found]
    omega
  · simp [List.count_replicate, Ne.symm other]

theorem Balanced.take (h : Balanced streams (i :: queue)) (found : streams[i]? = some s)
    (grows : s.turns.length - 1 ≤ t.turns.length) :
    Balanced (streams.set i t) (queue ++ List.replicate (t.turns.length - (s.turns.length - 1)) i) := by
  have turns := h.turns i s found
  rw [List.count_cons_self] at turns
  refine h.set found ?_ fun j other => ?_
  · rw [List.count_append, List.count_replicate_self]
    omega
  · simp [List.count_replicate, Ne.symm other]

theorem Balanced.add (h : Balanced streams queue) (empty : s.turns = []) :
    Balanced (streams ++ [s]) queue := by
  constructor
  · intro j u place
    rw [List.getElem?_append] at place
    split at place
    · exact h.turns j u place
    · rename_i beyond
      obtain rfl := List.mem_singleton.mp (List.mem_of_getElem? place)
      rw [empty, List.length_nil, List.count_eq_zero]
      exact fun member => beyond (h.known j member)
  · intro j member
    rw [List.length_append]
    exact Nat.lt_add_right _ (h.known j member)

/-- Nothing is queued only if no stream has a turn to come. -/
theorem Balanced.idle (h : Balanced streams []) (found : streams[i]? = some s) : s.turns = [] :=
  List.length_eq_zero_iff.mp (h.turns i s found).symm

/-! ### What the origin keeps up -/

/-- Whoever waits is looked after. -/
structure Tended (o : Origin) : Prop where
  attended : Attended o.streams o.clients
  balanced : Balanced o.streams o.queue
  unsent : ∀ client ∈ o.clients, client.headersSent = false

theorem create_tended (config : StreamingConfig) : (create config).Tended where
  attended := List.forall_mem_nil _
  balanced := ⟨fun i s found => (by cases found), List.forall_mem_nil _⟩
  unsent := List.forall_mem_nil _

theorem Tended.onStream (h : o.Tended) (event : Event) {stepped : Stream × Log}
    (found : o.streams[i]? = some s) (other : ∀ taker, event ≠ .turn taker)
    (same : stepped.1 = s.step event) : (o.onStream i s stepped).1.Tended := by
  obtain ⟨stepped, log⟩ := stepped
  subst same
  refine ⟨h.attended.set found fun client _ known => ?_,
    h.balanced.grow found (s.step_grows other).length_le, h.unsent⟩
  refine known.step fun outcome delivered => ?_
  cases event with
  | turn taker => exact other taker rfl
  | call call now | stop | leave leaver | playlist asker what | segment asker number range =>
      cases delivered

theorem Tended.add (h : o.Tended) {id : String} {settings : Settings} {size : Float} {now : Int}
    (created : Stream.create id settings size now = .ok s) : (o.add s).Tended := by
  obtain ⟨capacity, -, -, rfl⟩ := (Stream.create_eq_ok_iff id settings size now s).mp created
  exact ⟨h.attended.add _, h.balanced.add rfl, h.unsent⟩

theorem Tended.retire (h : o.Tended) {id : String} (found : o.streams[i]? = some s) :
    (o.retire id i s).1.Tended := by
  have stopped : (o.onStream i s s.stop).1.Tended := h.onStream .stop found nofun rfl
  exact ⟨stopped.attended, stopped.balanced, stopped.unsent⟩

variable {call : Call} {asker : Nat} {now : Int}

theorem Answers.tended {reply : Reply} (answers : Answers o call now after reply) (h : o.Tended) :
    after.Tended := by
  cases answers with
  | told usual => exact h
  | refused reason => exact h
  | produced found made sound performed success =>
      exact h.onStream (.call made now) (find?_streams found) nofun
        (Stream.step_call_ok performed).symm
  | @created s new stepped unknown created sound performed =>
      exact (h.add created).onStream (.call (.put new) now) List.getElem?_concat_length nofun
        (Stream.step_call_ok performed).symm
  | removed found => exact h.retire (find?_streams found)

theorem Awaits.tended {event : Event} (awaits : Awaits o call asker after i s event)
    (unsent : call.headersSent = false) (h : o.Tended) : after.Tended := by
  have other : ∀ taker, event ≠ .turn taker := by
    rintro taker rfl
    cases awaits.asks
  obtain ⟨client, clients, named, place, headers⟩ := awaits.client
  have found := find?_streams awaits.found
  obtain ⟨attended, balanced, before⟩ := h.onStream event found other (@rfl _ (s.step event, ([] : Log)).1)
  refine ⟨?_, ?_, ?_⟩
  · rw [awaits.streams, clients]
    refine List.forall_mem_append.mpr ⟨attended, List.forall_mem_singleton.mpr ?_⟩
    rw [place, named]
    exact ⟨_, List.getElem?_set_self (List.getElem?_eq_some_iff.mp found).1,
      (Stream.asks_learns awaits.asks).knows⟩
  · rw [awaits.streams, awaits.queue]
    exact balanced
  · rw [clients]
    exact List.forall_mem_append.mpr ⟨before, List.forall_mem_singleton.mpr (headers.trans unsent)⟩

theorem Effect.tended {reply? : Option Reply} (effect : Effect o call asker now after reply?)
    (unsent : call.headersSent = false) (h : o.Tended) : after.Tended := by
  cases effect with
  | answered answers => exact answers.tended h
  | awaited awaits => exact awaits.tended unsent h

theorem disconnect_tended (h : o.Tended) (leaver : Nat) : (o.disconnect leaver).1.Tended := by
  unfold disconnect
  split
  · exact h
  · split
    · exact h
    · rename_i s found
      exact h.onStream (.leave leaver) found nofun rfl

theorem removeFrom_tended (now cutoff : Int) (names : List (String × Nat)) (h : o.Tended) :
    (Cleanup.removeFrom now cutoff names o).1.Tended := by
  induction names generalizing o with
  | nil => exact h
  | cons name rest ih =>
      obtain ⟨id, i⟩ := name
      unfold Cleanup.removeFrom
      cases found : o.streams[i]? with
      | none => exact ih h
      | some s =>
          simp only
          split
          · exact ih (h.retire found)
          · exact ih h

/-- The stream whose turn it was is no longer queued for it, but for the one that it led to. -/
theorem Turned.balanced {next : Turn} (turned : Turned o after i s next)
    (h : Balanced o.streams o.queue) : Balanced after.streams after.queue := by
  obtain ⟨rest, queued, queue⟩ := turned.queue
  obtain ⟨later, turns⟩ := turned.turns
  obtain ⟨kept, -, -⟩ := Stream.step_first turns
  rw [queued] at h
  rw [turned.streams, queue]
  refine h.take turned.found ?_
  rw [turns]
  exact kept.length_le

theorem Takes.tended {reply? : Option (Nat × Reply)} (takes : Takes o after reply?) (h : o.Tended) :
    after.Tended := by
  cases takes with
  | @stale i rest queue nothing same =>
      -- no stream is queued that has no turn
      exfalso
      have balanced := h.balanced
      rw [queue] at balanced
      have there := balanced.known i List.mem_cons_self
      have turns := balanced.turns i _ (List.getElem?_eq_getElem there)
      rw [nothing _ (List.getElem?_eq_getElem there), List.count_cons_self] at turns
      cases turns
  | undelivered turned clients unawaited =>
      refine ⟨?_, turned.balanced h.balanced, clients ▸ h.unsent⟩
      rw [turned.streams, clients]
      refine h.attended.set turned.found fun client member known => known.step ?_
      exact fun outcome told => unawaited _ outcome told client member rfl
  | @delivered i s next client outcome turned waiting delivered clients =>
      have others : ∀ other ∈ o.clients.filter (·.request ≠ client.request), other ∈ o.clients ∧
          other.request ≠ client.request := fun other member => by simpa using member
      refine ⟨?_, turned.balanced h.balanced, ?_⟩
      · rw [turned.streams, clients]
        have rest : Attended o.streams (o.clients.filter (·.request ≠ client.request)) :=
          fun other member => h.attended other (others other member).1
        refine rest.set turned.found fun other member known => known.step ?_
        intro told same
        rw [delivered] at same
        exact (others other member).2 (congrArg Prod.fst (Option.some.inj same)).symm
      · rw [clients]
        exact fun other member => h.unsent other (others other member).1

/-! ### What is configured -/

theorem removeFrom_config (now cutoff : Int) (names : List (String × Nat)) (o : Origin) :
    (Cleanup.removeFrom now cutoff names o).1.config = o.config := by
  induction names generalizing o with
  | nil => rfl
  | cons name rest ih =>
      obtain ⟨id, i⟩ := name
      unfold Cleanup.removeFrom
      cases o.streams[i]? with
      | none => exact ih o
      | some s =>
          simp only
          split
          · exact ih (o.retire id i s).1
          · exact ih o

theorem disconnect_config (o : Origin) (leaver : Nat) :
    (o.disconnect leaver).1.config = o.config := by
  unfold disconnect
  split
  · rfl
  · split
    · rfl
    · rfl

theorem Effect.config {reply? : Option Reply} (effect : Effect o call asker now after reply?) :
    after.config = o.config := by
  cases effect with
  | awaited awaits => exact awaits.config
  | answered answers =>
      cases answers with
      | told usual | refused reason | produced found made sound performed success
      | created unknown created sound performed | removed found => rfl

theorem Takes.config {reply? : Option (Nat × Reply)} (takes : Takes o after reply?) :
    after.config = o.config := by
  cases takes with
  | stale queue nothing same => rw [same]
  | undelivered turned clients unawaited => exact turned.config
  | delivered turned waiting delivered clients => exact turned.config

/-! ### Work -/

theorem sum_set {numbers : List Nat} {m : Nat} (found : numbers[i]? = some m) (n : Nat) :
    (numbers.set i n).sum + m = numbers.sum + n := by
  induction numbers generalizing i with
  | nil => cases found
  | cons first rest ih =>
      cases i with
      | zero =>
          cases found
          rw [List.set_cons_zero, List.sum_cons, List.sum_cons]
          omega
      | succ i =>
          have later := ih (i := i) found
          rw [List.set_cons_succ, List.sum_cons, List.sum_cons]
          omega

/-- Every turn leaves less to do. -/
theorem Takes.work {reply? : Option (Nat × Reply)} (takes : Takes o after reply?) :
    after.work < o.work := by
  have turned_work {i : Nat} {s : Stream} {next : Turn} (turned : Turned o after i s next) :
      after.work < o.work := by
    obtain ⟨rest, queued, queue⟩ := turned.queue
    obtain ⟨later, turns⟩ := turned.turns
    obtain ⟨-, few, less⟩ := Stream.step_first turns
    have found : (o.streams.map Stream.work)[i]? = some s.work := by
      rw [List.getElem?_map, turned.found, Option.map_some]
    have total := sum_set found (s.step (.turn next.request)).work
    have positive : 0 < s.turns.length := by
      rw [turns]
      exact Nat.succ_pos _
    simp only [Origin.work, turned.streams, queue, queued, Stream.total_eq_sum, List.map_set,
      List.length_append, List.length_replicate, List.length_cons]
    omega
  cases takes with
  | stale queue nothing same =>
      rw [same, Origin.work, Origin.work, queue]
      exact Nat.add_lt_add_right (Nat.lt_succ_self _) _
  | undelivered turned clients unawaited => exact turned_work turned
  | delivered turned waiting delivered clients => exact turned_work turned

theorem turn_eq_none_iff : o.turn = none ↔ o.queue = [] := by
  constructor
  · intro idle
    cases queue : o.queue with
    | nil => rfl
    | cons i rest =>
        simp only [turn, queue] at idle
        split at idle
        · cases idle
        · split at idle
          · cases idle
          · split at idle
            · cases idle
            · cases idle
  · intro queue
    simp only [turn, queue]

end Origin

namespace Gateway

variable {g : Gateway} {act : Act}

theorem act_tended (fresh : act.Fresh) (h : g.origin.Tended) : (g.act act).1.origin.Tended := by
  have does := g.act_does act
  generalize (g.act act).1.origin = after at does ⊢
  generalize (g.act act).2 = replies at does
  cases does with
  | called made effect => exact effect.tended (fresh _ _ _ made) h
  | page static => exact h
  | disconnect leaver => exact Origin.disconnect_tended h leaver
  | turn takes => exact takes.tended h
  | idle quiet => exact h
  | sweep cleanup now => exact Origin.removeFrom_tended now (now - cleanup.idleTimeout) _ h

theorem act_config (g : Gateway) (act : Act) :
    (g.act act).1.origin.config = g.origin.config := by
  have does := g.act_does act
  generalize (g.act act).1.origin = after at does ⊢
  generalize (g.act act).2 = replies at does
  cases does with
  | called made effect => exact effect.config
  | page static => rfl
  | disconnect leaver => exact g.origin.disconnect_config leaver
  | turn takes => exact takes.config
  | idle quiet => rfl
  | sweep cleanup now => exact Origin.removeFrom_config now (now - cleanup.idleTimeout) _ g.origin

theorem run_tended {acts : List Act} (fresh : ∀ act ∈ acts, act.Fresh) (h : g.origin.Tended) :
    (g.run acts).origin.Tended := by
  induction acts generalizing g with
  | nil => exact h
  | cons act acts ih =>
      obtain ⟨now, later⟩ := List.forall_mem_cons.mp fresh
      exact ih later (act_tended now h)

theorem run_config (g : Gateway) (acts : List Act) : (g.run acts).origin.config = g.origin.config := by
  induction acts generalizing g with
  | nil => rfl
  | cons act acts ih => exact (ih (g.act act).1).trans (g.act_config act)

/-! ### Turn after turn -/

theorem run_turns_idle (idle : g.origin.queue = []) (n : Nat) :
    g.run (List.replicate n .turn) = g := by
  induction n with
  | zero => rfl
  | succ n ih =>
      have still : (g.act .turn).1 = g := by rw [act, Origin.turn_eq_none_iff.mpr idle]
      show (g.act .turn).1.run (List.replicate n .turn) = g
      rw [still, ih]

/-- Nothing is queued any more when as many turns have been taken as there was work to do. -/
theorem run_turns_queue {n : Nat} (enough : g.origin.work ≤ n) :
    (g.run (List.replicate n .turn)).origin.queue = [] := by
  induction n generalizing g with
  | zero =>
      have drained : g.origin.queue.length = 0 := by
        unfold Origin.work at enough
        omega
      exact List.length_eq_zero_iff.mp drained
  | succ n ih =>
      cases taken : g.origin.turn with
      | none =>
          have idle := Origin.turn_eq_none_iff.mp taken
          rwa [run_turns_idle idle]
      | some result =>
          have less := (Origin.turn_takes taken).work
          have after : (g.act .turn).1.origin = result.1 := by rw [act, taken]
          show ((g.act .turn).1.run (List.replicate n .turn)).origin.queue = []
          apply ih
          rw [after]
          omega

/-- After these turns the request of every client that still waits is parked. -/
theorem run_turns_parked {n : Nat} (h : g.origin.Tended) (enough : g.origin.work ≤ n) :
    ∀ client ∈ (g.run (List.replicate n .turn)).origin.clients,
      ∃ s, (g.run (List.replicate n .turn)).origin.streams[client.stream]? = some s ∧
        ∃ waiter ∈ s.waiters.parked, waiter.tag.request = client.request := by
  have fresh : ∀ act ∈ List.replicate n Act.turn, act.Fresh := by
    intro act member
    rw [List.eq_of_mem_replicate member]
    exact fun call asker now made => by cases made
  obtain ⟨attended, balanced, -⟩ := run_tended fresh h
  rw [run_turns_queue enough] at balanced
  intro client member
  obtain ⟨s, there, parked | ⟨turn, left, -⟩⟩ := attended client member
  · exact ⟨s, there, parked⟩
  · rw [balanced.idle there] at left
    cases left

end Gateway
end LiveHls
