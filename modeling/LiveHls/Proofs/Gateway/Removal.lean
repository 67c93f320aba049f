import Mathlib.Data.List.Nodup
import LiveHls.Proofs.Gateway.Changes
import LiveHls.Proofs.Stream.Content
/-! Streams that are no longer served. A stream runs for as long as it has a name. It is stopped when
it is removed, by its producer or by a sweep, and all who wait for it go on with that; from then on
nobody can wait for it, whoever comes back from an earlier wait. The name may be given again, to a
stream that starts with nothing. -/
namespace LiveHls

/-- Only a stop stops a stream. -/
theorem Stream.step_stopped (s : Stream) {event : Event} (going : event ≠ .stop) :
    (s.step event).stopped = s.stopped := by
  have moves := s.step_moves event
  generalize s.step event = t at moves
  cases moves with
  | produced running made => rfl
  | refused failed => rfl
  | halted running => exact absurd rfl going
  | idle stopped => exact absurd rfl going
  | left request => rfl
  | playlist reads => exact reads.stopped
  | segment reads => exact reads.stopped
  | turn reads => exact reads.stopped

theorem Stream.stop_stopped (s : Stream) : s.stop.1.stopped = true := by
  unfold stop
  split
  · assumption
  · rfl

namespace Origin

variable {o after : Origin} {act : Act}

/-- The stream at a place is served. -/
def Serves (o : Origin) (i : Nat) : Prop := i ∈ o.names.map (·.2)

instance (o : Origin) (i : Nat) : Decidable (o.Serves i) :=
  inferInstanceAs (Decidable (i ∈ o.names.map (·.2)))

/-- Names and streams belong together: each name has one stream, which runs, and all other streams
are stopped. -/
structure Orderly (o : Origin) : Prop where
  ids : (o.names.map (·.1)).Nodup
  places : (o.names.map (·.2)).Nodup
  served : ∀ i, o.Serves i → ∃ s, o.streams[i]? = some s ∧ s.stopped = false
  unserved : ∀ i s, o.streams[i]? = some s → ¬ o.Serves i → s.stopped = true
  regular : ∀ s ∈ o.streams, s.Regular

theorem mem_names_of_find? {id : String} {i : Nat} {s : Stream} (found : o.find? id = some (i, s)) :
    (id, i) ∈ o.names := by
  obtain ⟨place, named, same⟩ := Option.bind_eq_some_iff.mp found
  obtain ⟨t, -, pair⟩ := Option.map_eq_some_iff.mp same
  cases pair
  obtain ⟨before, rest, names, -⟩ := List.lookup_eq_some_iff.mp named
  exact names ▸ List.mem_append_right before List.mem_cons_self

theorem serves_of_find? {id : String} {i : Nat} {s : Stream} (found : o.find? id = some (i, s)) :
    o.Serves i := List.mem_map.mpr ⟨_, mem_names_of_find? found, rfl⟩

theorem Orderly.find? (h : o.Orderly) {id : String} {i : Nat} (named : (id, i) ∈ o.names) :
    ∃ s, o.find? id = some (i, s) ∧ o.streams[i]? = some s ∧ s.stopped = false := by
  obtain ⟨s, there, running⟩ := h.served i (List.mem_map.mpr ⟨_, named, rfl⟩)
  have place : o.names.lookup id = some i := by
    obtain ⟨before, rest, names⟩ := List.append_of_mem named
    refine List.lookup_eq_some_iff.mpr ⟨before, rest, names, fun other earlier => ?_⟩
    have ids := h.ids
    rw [names, List.map_append, List.map_cons, List.nodup_append] at ids
    have other_id : other.1 ≠ id :=
      ids.2.2 other.1 (List.mem_map.mpr ⟨other, earlier, rfl⟩) id List.mem_cons_self
    exact bne_iff_ne.mpr (Ne.symm other_id)
  exact ⟨s, by simp only [Origin.find?, place, Option.bind_some, there, Option.map_some], there, running⟩

theorem Orderly.unnamed (h : o.Orderly) {id : String} (unknown : o.find? id = none) :
    id ∉ o.names.map (·.1) := by
  intro member
  obtain ⟨name, named, rfl⟩ := List.mem_map.mp member
  obtain ⟨s, found, -⟩ := h.find? named
  rw [unknown] at found
  cases found

theorem setName_of_absent {id : String} {i : Nat} {names : List (String × Nat)}
    (absent : id ∉ names.map (·.1)) : setName id i names = names ++ [(id, i)] := by
  induction names with
  | nil => rfl
  | cons name rest ih =>
      obtain ⟨other, j⟩ := name
      rw [List.map_cons, List.mem_cons, not_or] at absent
      rw [setName, if_neg (Ne.symm absent.1), ih absent.2, List.cons_append]

/-! ### Removal -/

/-- Some of the served streams are stopped and lose their names; all others stay as they are. -/
structure Retires (o : Origin) (gone : Nat → Bool) (after : Origin) : Prop where
  names : after.names = o.names.filter fun name => !gone name.2
  streams : ∀ j, after.streams[j]? =
    if o.Serves j ∧ gone j = true then o.streams[j]?.map (·.stop.1) else o.streams[j]?

theorem Retires.serves {gone : Nat → Bool} (retires : Retires o gone after) (j : Nat) :
    after.Serves j ↔ o.Serves j ∧ gone j = false := by
  simp only [Serves, retires.names, List.mem_map, List.mem_filter, Bool.not_eq_true']
  constructor
  · rintro ⟨name, ⟨member, stays⟩, rfl⟩
    exact ⟨⟨name, member, rfl⟩, stays⟩
  · rintro ⟨⟨name, member, rfl⟩, stays⟩
    exact ⟨name, ⟨member, stays⟩, rfl⟩

/-- A name and its place stand for each other. -/
theorem Orderly.eq_of_id (h : o.Orderly) {id : String} {i j : Nat} (first : (id, i) ∈ o.names)
    (second : (id, j) ∈ o.names) : i = j :=
  congrArg Prod.snd (List.inj_on_of_nodup_map h.ids first second rfl)

theorem Orderly.eq_of_place (h : o.Orderly) {id other : String} {i : Nat}
    (first : (id, i) ∈ o.names) (second : (other, i) ∈ o.names) : id = other :=
  congrArg Prod.fst (List.inj_on_of_nodup_map h.places first second rfl)

theorem Orderly.remove_retires (h : o.Orderly) {id : String} {i : Nat} {s : Stream}
    (found : o.find? id = some (i, s)) (streams : after.streams = o.streams.set i s.stop.1)
    (names : after.names = o.names.filter (·.1 ≠ id)) : Retires o (· = i) after := by
  have own := mem_names_of_find? found
  constructor
  · rw [names]
    refine List.filter_congr fun name member => ?_
    have same : name.1 = id ↔ name.2 = i := by
      constructor
      · rintro rfl
        exact h.eq_of_id member own
      · rintro rfl
        exact h.eq_of_place member own
    simp [same]
  · intro j
    rw [streams, List.getElem?_set]
    by_cases same : i = j
    · subst same
      have there := find?_streams found
      rw [if_pos rfl, if_pos (List.getElem?_eq_some_iff.mp there).1,
        if_pos ⟨serves_of_find? found, decide_eq_true rfl⟩, there, Option.map_some]
    · simp [same, Ne.symm same]

theorem Orderly.removeIdle_retires (h : o.Orderly) (cleanup : CleanupConfig) (now : Int) :
    Retires o (o.idle (now - cleanup.idleTimeout)) (Cleanup.removeIdle cleanup o now).1 := by
  obtain ⟨removed, names⟩ := removeFrom_names now (now - cleanup.idleTimeout) o.names o
  constructor
  · show (Cleanup.removeFrom now (now - cleanup.idleTimeout) o.names o).1.names = _
    rw [names, removed]
    refine List.filter_congr fun name member => ?_
    have same : name.1 ∈ (o.names.filter fun name => o.idle (now - cleanup.idleTimeout) name.2).map
        (·.1) ↔ o.idle (now - cleanup.idleTimeout) name.2 = true := by
      constructor
      · intro listed
        obtain ⟨other, kept, id⟩ := List.mem_map.mp listed
        obtain ⟨known, gone⟩ := List.mem_filter.mp kept
        rwa [List.inj_on_of_nodup_map h.ids known member id] at gone
      · intro gone
        exact List.mem_map.mpr ⟨name, List.mem_filter.mpr ⟨member, gone⟩, rfl⟩
    simp [same]
  · intro j
    exact removeFrom_streams now (now - cleanup.idleTimeout) o.names o j

/-! ### Order is kept -/

theorem create_orderly (config : StreamingConfig) : (create config).Orderly where
  ids := .nil
  places := .nil
  served := fun _ served => absurd served List.not_mem_nil
  unserved := fun _ _ there _ => by cases there
  regular := fun _ member => absurd member List.not_mem_nil

theorem kept_regular (act : Act) : Kept act Stream.Regular where
  created := Stream.create_regular
  step := fun {s event} _ regular => (s.step_moves event).regular regular

/-- A step that does not stop the stream changes nothing about who is served. -/
theorem Orderly.set (h : o.Orderly) {i : Nat} {s t : Stream} (found : o.streams[i]? = some s)
    (streams : after.streams = o.streams.set i t) (names : after.names = o.names)
    (going : t.stopped = s.stopped) (regular : ∀ s ∈ after.streams, s.Regular) : after.Orderly := by
  have serves (j : Nat) : after.Serves j ↔ o.Serves j := by rw [Serves, names, Serves]
  have place (j : Nat) : after.streams[j]? = if i = j then some t else o.streams[j]? := by
    rw [streams, List.getElem?_set]
    split
    · rw [if_pos (List.getElem?_eq_some_iff.mp found).1]
    · rfl
  refine ⟨names ▸ h.ids, names ▸ h.places, fun j served => ?_, fun j u there unserved => ?_, regular⟩
  · obtain ⟨u, there, running⟩ := h.served j ((serves j).mp served)
    by_cases same : i = j
    · subst same
      rw [found] at there
      cases there
      exact ⟨t, by rw [place, if_pos rfl], going.trans running⟩
    · exact ⟨u, by rw [place, if_neg same, there], running⟩
  · have before : ¬ o.Serves j := fun served => unserved ((serves j).mpr served)
    rw [place] at there
    split at there
    · rename_i same
      subst same
      cases there
      exact going.trans (h.unserved i s found before)
    · exact h.unserved j u there before

/-- A new stream comes behind all others. -/
theorem Orderly.append (h : o.Orderly) {id : String} {t : Stream} (unknown : o.find? id = .none)
    (streams : after.streams = o.streams ++ [t])
    (names : after.names = setName id o.streams.length o.names) (running : t.stopped = false)
    (regular : ∀ s ∈ after.streams, s.Regular) : after.Orderly := by
  have absent := h.unnamed unknown
  have names : after.names = o.names ++ [(id, o.streams.length)] := by
    rw [names, setName_of_absent absent]
  have below (j : Nat) (served : o.Serves j) : j < o.streams.length := by
    obtain ⟨s, there, -⟩ := h.served j served
    exact (List.getElem?_eq_some_iff.mp there).1
  have serves (j : Nat) : after.Serves j ↔ o.Serves j ∨ j = o.streams.length := by
    simp only [Serves, names, List.map_append, List.map_cons, List.map_nil, List.mem_append,
      List.mem_singleton]
  refine ⟨?_, ?_, fun j served => ?_, fun j u there unserved => ?_, regular⟩
  · rw [names, List.map_append]
    refine List.nodup_append.mpr ⟨h.ids, List.nodup_singleton _, fun other member new same => ?_⟩
    rw [List.mem_singleton.mp same]
    rintro rfl
    exact absent member
  · rw [names, List.map_append]
    refine List.nodup_append.mpr ⟨h.places, List.nodup_singleton _, fun j member new same => ?_⟩
    have small := below j member
    rw [List.mem_singleton.mp same]
    exact Nat.ne_of_lt small
  · rw [streams]
    rcases (serves j).mp served with before | rfl
    · obtain ⟨s, there, running⟩ := h.served j before
      exact ⟨s, by rw [List.getElem?_append_left (below j before), there], running⟩
    · exact ⟨t, List.getElem?_concat_length, running⟩
  · rw [serves, not_or] at unserved
    rw [streams, List.getElem?_append] at there
    split at there
    · exact h.unserved j u there unserved.1
    · have last : j - o.streams.length = 0 := by
        have bound := (List.getElem?_eq_some_iff.mp there).1
        rw [List.length_singleton] at bound
        omega
      omega

theorem Orderly.retires (h : o.Orderly) {gone : Nat → Bool} (retires : Retires o gone after)
    (regular : ∀ s ∈ after.streams, s.Regular) : after.Orderly := by
  have sub : after.names.Sublist o.names := retires.names ▸ List.filter_sublist
  refine ⟨h.ids.sublist (sub.map _), h.places.sublist (sub.map _), fun j served => ?_,
    fun j u there unserved => ?_, regular⟩
  · obtain ⟨before, stays⟩ := (retires.serves j).mp served
    obtain ⟨s, there, running⟩ := h.served j before
    refine ⟨s, ?_, running⟩
    rw [retires.streams, if_neg (by simp [stays]), there]
  · rw [retires.streams] at there
    split at there
    · obtain ⟨s, -, rfl⟩ := Option.map_eq_some_iff.mp there
      exact s.stop_stopped
    · rename_i kept
      refine h.unserved j u there fun served => ?_
      have stays : gone j = false := by simpa [served] using kept
      exact unserved ((retires.serves j).mpr ⟨served, stays⟩)

/-- What an act makes of the names: they stay, a new stream gets one, or some lose theirs. -/
inductive Turnover (o : Origin) (act : Act) (after : Origin) : Prop
  | stays (names : after.names = o.names) (length : after.streams.length = o.streams.length)
      (others : ∀ i, ¬ o.Serves i → (∀ event, ¬ act.Moves event) →
        after.streams[i]? = o.streams[i]?)
  | created {id : String} {s : Stream} {new : NewSegment} {now : Int}
      (created : Stream.create id o.settings o.config.windowSize now = .ok s)
      (streams : after.streams = o.streams ++ [s.step (.call (.put new) now)])
      (names : after.names = o.names ++ [(id, o.streams.length)])
  | retired {gone : Nat → Bool} (retires : Retires o gone after)

theorem going_of_asks {event : Event} (asks : act.Asks event) : event ≠ .stop := by
  rintro rfl
  obtain ⟨made, asker, now, -, asked | ⟨production, -, same⟩⟩ := asks
  · cases asked
  · cases same

theorem going_of_moves {event : Event} (moves : act.Moves event) : event ≠ .stop := by
  rintro rfl
  rcases moves.cases with ⟨request, -, same⟩ | ⟨taker, same⟩ <;> cases same

theorem Change.turnover (h : o.Orderly) (change : Change o act after) : Turnover o act after := by
  cases change with
  | none streams names => exact .stays names (by rw [streams]) fun i _ _ => by rw [streams]
  | asked found asks streams names =>
      refine .stays names (by rw [streams, List.length_set]) fun j unserved _ => ?_
      rw [streams, List.getElem?_set_ne]
      rintro rfl
      exact unserved (serves_of_find? found)
  | moved found moves streams names =>
      exact .stays names (by rw [streams, List.length_set]) fun _ _ still => absurd moves (still _)
  | created unknown created asks streams names =>
      exact .created created streams (by rw [names, setName_of_absent (h.unnamed unknown)])
  | removed found streams names => exact .retired (h.remove_retires found streams names)

theorem Change.orderly (h : o.Orderly) (change : Change o act after) : after.Orderly := by
  have regular := change.forall (kept_regular act) h.regular
  cases change with
  | none streams names =>
      refine ⟨names ▸ h.ids, names ▸ h.places, ?_, ?_, regular⟩
      · simpa only [Serves, streams, names] using h.served
      · simpa only [Serves, streams, names] using h.unserved
  | asked found asks streams names =>
      exact h.set (find?_streams found) streams names (Stream.step_stopped _ (going_of_asks asks)) regular
  | moved found moves streams names =>
      exact h.set found streams names (Stream.step_stopped _ (going_of_moves moves)) regular
  | created unknown created asks streams names =>
      refine h.append unknown streams names ?_ regular
      obtain ⟨capacity, -, -, rfl⟩ := (Stream.create_eq_ok_iff ..).mp created
      exact Stream.step_stopped _ (going_of_asks asks)
  | removed found streams names =>
      exact h.retires (h.remove_retires found streams names) regular

theorem Turnover.length_le (turnover : Turnover o act after) :
    o.streams.length ≤ after.streams.length := by
  cases turnover with
  | stays names length others => exact Nat.le_of_eq length.symm
  | created created streams names =>
      rw [streams, List.length_append]
      exact Nat.le_add_right _ _
  | retired retires =>
      by_contra fewer
      have lost := retires.streams after.streams.length
      rw [List.getElem?_eq_none (Nat.le_refl _), List.getElem?_eq_getElem (by omega)] at lost
      split at lost
      · cases lost
      · cases lost

/-- A stream that has lost its name never has one again. -/
theorem Turnover.unserved (turnover : Turnover o act after) {i : Nat} (there : i < o.streams.length)
    (unserved : ¬ o.Serves i) : ¬ after.Serves i := by
  cases turnover with
  | stays names length others => rwa [Serves, names]
  | created created streams names =>
      simp only [Serves, names, List.map_append, List.map_cons, List.map_nil, List.mem_append,
        List.mem_singleton, not_or]
      exact ⟨unserved, Nat.ne_of_lt there⟩
  | retired retires => exact fun served => unserved ((retires.serves i).mp served).1

/-- A stream loses its name only when it is stopped. -/
theorem Turnover.stopped (turnover : Turnover o act after) {i : Nat} {s : Stream}
    (there : o.streams[i]? = some s) (served : o.Serves i) (unserved : ¬ after.Serves i) :
    after.streams[i]? = some s.stop.1 := by
  cases turnover with
  | stays names length others =>
      rw [Serves, names] at unserved
      exact absurd served unserved
  | created created streams names =>
      simp only [Serves, names, List.map_append, List.mem_append, not_or] at unserved
      exact absurd served unserved.1
  | @retired gone retires =>
      have gone : gone i = true := by
        simpa [retires.serves, served] using unserved
      rw [retires.streams, if_pos ⟨served, gone⟩, there, Option.map_some]

/-! ### What a sweep takes away -/

theorem served_filter (streams : List Stream) (q : Stream → Bool) (names : List (String × Nat)) :
    ((names.filterMap fun (id, i) => streams[i]?.map fun s => (id, s)).filter fun (_, s) => q s) =
      (names.filter fun (_, i) => streams[i]?.any q).filterMap fun (id, i) =>
        streams[i]?.map fun s => (id, s) := by
  induction names with
  | nil => rfl
  | cons name rest ih =>
      obtain ⟨id, i⟩ := name
      cases found : streams[i]? with
      | none => simp [found, ih]
      | some s => cases kept : q s <;> simp [found, kept, ih]

theorem served_ids (streams : List Stream) (names : List (String × Nat))
    (there : ∀ name ∈ names, ∃ s, streams[name.2]? = some s) :
    (names.filterMap fun (id, i) => streams[i]?.map fun s => (id, s)).map (·.1) =
      names.map (·.1) := by
  induction names with
  | nil => rfl
  | cons name rest ih =>
      obtain ⟨id, i⟩ := name
      obtain ⟨s, found⟩ := there (id, i) List.mem_cons_self
      simp [found, ih fun name member => there name (List.mem_cons_of_mem _ member)]

/-- Whether a stream has been idle for longer than the timeout. -/
def overdue (cleanup : CleanupConfig) (now : Int) (s : Stream) : Bool :=
  s.lastActivity < now - cleanup.idleTimeout

theorem Orderly.removeIdle_served (h : o.Orderly) (cleanup : CleanupConfig) (now : Int) :
    (Cleanup.removeIdle cleanup o now).2.1 =
        (o.served.filter fun (_, s) => overdue cleanup now s).map (·.1) ∧
      (Cleanup.removeIdle cleanup o now).1.served =
        o.served.filter fun (_, s) => !overdue cleanup now s := by
  constructor
  · have removed := (removeFrom_names now (now - cleanup.idleTimeout) o.names o).1
    rw [Origin.served, served_filter, served_ids]
    · exact removed
    · intro name kept
      obtain ⟨s, found, -⟩ := h.served name.2
        (List.mem_map.mpr ⟨name, (List.mem_filter.mp kept).1, rfl⟩)
      exact ⟨s, found⟩
  · have retires := h.removeIdle_retires cleanup now
    have kept : (o.names.filter fun (_, i) => o.streams[i]?.any fun s => !overdue cleanup now s) =
        o.names.filter fun name => !o.idle (now - cleanup.idleTimeout) name.2 := by
      refine List.filter_congr fun name member => ?_
      obtain ⟨s, found, -⟩ := h.served name.2 (List.mem_map.mpr ⟨name, member, rfl⟩)
      simp only [found, Option.any_some, idle, overdue]
    rw [Origin.served, Origin.served, served_filter o.streams fun s => !overdue cleanup now s]
    rw [kept, retires.names]
    refine List.filterMap_congr fun name member => ?_
    obtain ⟨id, i⟩ := name
    have stays : o.idle (now - cleanup.idleTimeout) i = false := by
      simpa using (List.mem_filter.mp member).2
    simp only [retires.streams, stays, Bool.false_eq_true, and_false, if_false]

end Origin

namespace Gateway

variable {g : Gateway}

theorem act_turnover (h : g.origin.Orderly) (act : Act) :
    Origin.Turnover g.origin act (g.act act).1.origin := by
  rcases g.act_change act with ⟨cleanup, now, rfl⟩ | change
  · exact .retired (h.removeIdle_retires cleanup now)
  · exact change.turnover h

theorem act_orderly (h : g.origin.Orderly) (act : Act) : (g.act act).1.origin.Orderly := by
  rcases g.act_change act with ⟨cleanup, now, rfl⟩ | change
  · exact h.retires (h.removeIdle_retires cleanup now)
      (act_forall (Origin.kept_regular (.sweep cleanup now)) h.regular)
  · exact change.orderly h

theorem run_orderly (h : g.origin.Orderly) (acts : List Act) : (g.run acts).origin.Orderly := by
  induction acts generalizing g with
  | nil => exact h
  | cons act acts ih => exact ih (act_orderly h act)

/-- A stream that is not served any more stays among the streams and is not served again. -/
theorem run_unserved (h : g.origin.Orderly) {i : Nat} (there : i < g.origin.streams.length)
    (unserved : ¬ g.origin.Serves i) (acts : List Act) :
    i < (g.run acts).origin.streams.length ∧ ¬ (g.run acts).origin.Serves i := by
  induction acts generalizing g with
  | nil => exact ⟨there, unserved⟩
  | cons act acts ih =>
      have turnover := act_turnover h act
      exact ih (act_orderly h act) (Nat.lt_of_lt_of_le there turnover.length_le)
        (turnover.unserved there unserved)

/-- What is so of the streams of a gateway, those that are served and those that are not any more. -/
structure Tidy (g : Gateway) : Prop where
  /-- Each name has a stream, and it runs. -/
  running : ∀ id i, (id, i) ∈ g.origin.names →
    ∃ s, g.origin.find? id = some (i, s) ∧ s.stopped = false
  /-- Whatever happens later, a stream that is not served is stopped, and nobody waits for it. -/
  quiet : ∀ i s, g.origin.streams[i]? = some s → ¬ g.origin.Serves i → ∀ later,
    ¬ (g.run later).origin.Serves i ∧
      ∃ t, (g.run later).origin.streams[i]? = some t ∧ t.stopped = true ∧ t.waiters.parked = []
  /-- When a stream is removed, all who wait for it go on with the news that it has stopped. -/
  released : ∀ act i s, g.origin.streams[i]? = some s → g.origin.Serves i →
    ¬ (g.act act).1.origin.Serves i →
      ∃ t, (g.act act).1.origin.streams[i]? = some t ∧ t.turns = s.turns ++
        s.waiters.parked.map fun waiter => .resume waiter.tag (.error (.stopped s.id))
  /-- A name goes to a new stream, which starts with an empty window. -/
  fresh : ∀ act id i, (id, i) ∈ (g.act act).1.origin.names → (id, i) ∉ g.origin.names →
    i = g.origin.streams.length ∧ ∃ (s : Stream) (new : NewSegment) (now : Int),
      s.id = id ∧ s.window = .empty ∧ s.waiters.parked = [] ∧ s.turns = [] ∧
        (g.act act).1.origin.streams = g.origin.streams ++ [s.step (.call (.put new) now)]
  /-- Requests, calls and sweeps do nothing to a stream that is not served. -/
  untouched : ∀ act i, (∀ request, act ≠ .disconnect request) → act ≠ .turn →
    i < g.origin.streams.length → ¬ g.origin.Serves i →
      (g.act act).1.origin.streams[i]? = g.origin.streams[i]?
  /-- A sweep removes and stops the served streams that are overdue, and does nothing else. -/
  swept : ∀ cleanup now,
    (Cleanup.removeIdle cleanup g.origin now).2.1 =
        (g.origin.served.filter fun (_, s) => Origin.overdue cleanup now s).map (·.1) ∧
      (Cleanup.removeIdle cleanup g.origin now).1.served =
        (g.origin.served.filter fun (_, s) => !Origin.overdue cleanup now s) ∧
      ∀ i s, g.origin.streams[i]? = some s →
        (Cleanup.removeIdle cleanup g.origin now).1.streams[i]? =
          some (if g.origin.Serves i ∧ Origin.overdue cleanup now s then s.stop.1 else s)

theorem act_released (h : g.origin.Orderly) {act : Act} {i : Nat} {s : Stream}
    (there : g.origin.streams[i]? = some s) (served : g.origin.Serves i)
    (unserved : ¬ (g.act act).1.origin.Serves i) :
    ∃ t, (g.act act).1.origin.streams[i]? = some t ∧ t.turns = s.turns ++
      s.waiters.parked.map fun waiter => .resume waiter.tag (.error (.stopped s.id)) := by
  obtain ⟨u, here, running⟩ := h.served i served
  rw [there] at here
  cases here
  refine ⟨s.stop.1, (act_turnover h act).stopped there served unserved, ?_⟩
  have halted : s.stop.1 = s.halted := by
    have same := s.step_stop
    rw [running] at same
    exact same
  rw [halted]
  simp only [Stream.halted, Waiters.close, List.map_map]
  rfl

theorem act_fresh (h : g.origin.Orderly) {act : Act} {id : String} {i : Nat}
    (named : (id, i) ∈ (g.act act).1.origin.names) (unnamed : (id, i) ∉ g.origin.names) :
    i = g.origin.streams.length ∧ ∃ (s : Stream) (new : NewSegment) (now : Int),
      s.id = id ∧ s.window = .empty ∧ s.waiters.parked = [] ∧ s.turns = [] ∧
        (g.act act).1.origin.streams = g.origin.streams ++ [s.step (.call (.put new) now)] := by
  cases act_turnover h act with
  | stays names length others => exact absurd (names ▸ named) unnamed
  | @created own s new now created streams names =>
      rw [names, List.mem_append, List.mem_singleton] at named
      obtain ⟨rfl, rfl⟩ := Prod.mk.inj (named.resolve_left unnamed)
      obtain ⟨capacity, -, -, rfl⟩ := (Stream.create_eq_ok_iff ..).mp created
      exact ⟨rfl, _, new, now, rfl, rfl, rfl, rfl, streams⟩
  | retired retires =>
      rw [retires.names] at named
      exact absurd (List.mem_filter.mp named).1 unnamed

theorem act_untouched (h : g.origin.Orderly) {act : Act} {i : Nat}
    (stays : ∀ request, act ≠ .disconnect request) (other : act ≠ .turn)
    (there : i < g.origin.streams.length) (unserved : ¬ g.origin.Serves i) :
    (g.act act).1.origin.streams[i]? = g.origin.streams[i]? := by
  cases act_turnover h act with
  | stays names length others =>
      refine others i unserved fun event moves => ?_
      cases act with
      | disconnect request => exact stays request rfl
      | turn => exact other rfl
      | http r request now | call call request now | sweep cleanup now => exact moves
  | created created streams names => rw [streams, List.getElem?_append_left there]
  | retired retires => rw [retires.streams, if_neg fun both => unserved both.1]

theorem tidy_of_orderly (h : g.origin.Orderly) : g.Tidy where
  running id i named := by
    obtain ⟨s, found, -, running⟩ := h.find? named
    exact ⟨s, found, running⟩
  quiet i s there unserved later := by
    obtain ⟨still, never⟩ := run_unserved h (List.getElem?_eq_some_iff.mp there).1 unserved later
    have after := run_orderly h later
    have here := List.getElem?_eq_getElem still
    have stopped := after.unserved i _ here never
    exact ⟨never, _, here, stopped, ((after.regular _ (List.getElem_mem still)).closed stopped).1⟩
  released act i s there served unserved := act_released h there served unserved
  fresh act id i named unnamed := act_fresh h named unnamed
  untouched act i stays other there unserved := act_untouched h stays other there unserved
  swept cleanup now := by
    obtain ⟨removed, served⟩ := h.removeIdle_served cleanup now
    refine ⟨removed, served, fun i s there => ?_⟩
    rw [(h.removeIdle_retires cleanup now).streams]
    simp only [Origin.idle, there, Option.any_some, Option.map_some]
    by_cases both : g.origin.Serves i ∧ Origin.overdue cleanup now s = true
    · rw [if_pos both]
      exact if_pos both
    · rw [if_neg both]
      exact if_neg both

/-- In whatever order requests are made, streams are deleted and swept, turns are taken and clients
leave, the streams that are served run, and nobody is left with one that is not. -/
theorem removed_streams_hold_nobody (config : StreamingConfig) (log : LogControl)
    (acts : List Act) : (run ⟨.create config, log⟩ acts).Tidy :=
  tidy_of_orderly (run_orderly (Origin.create_orderly config) acts)

/-- A request waits for the second segment when its stream is deleted. It is told so, although there
is a stream of that name again by the time it goes on, and nobody comes to wait for the old one. -/
theorem removed_streams_hold_nobody_of_deleted :
    let config : StreamingConfig := ⟨4.0, 1.0, 2.0⟩
    let log : LogControl := ⟨⟨"", "", .absent, []⟩, "info", Yaml.parse?⟩
    let acts : List Act := [.http ⟨"PUT", "/live/cam/segment/0.m4s", [], [7]⟩ 0 1,
      .http ⟨"GET", "/live/cam/segment/1.m4s", [], []⟩ 1 2,
      .http ⟨"DELETE", "/live/cam", [], []⟩ 2 3,
      .http ⟨"PUT", "/live/cam/segment/0.m4s", [], [8]⟩ 3 4]
    let g := run ⟨.create config, log⟩ acts
    g.origin.names = [("cam", 1)] ∧
    (replies ⟨.create config, log⟩ (acts ++ [.turn, .turn])).map (fun (request, reply) =>
      (request, reply.status?)) =
        [(0, some 201), (2, some 200), (3, some 201), (1, some 404)] ∧
    ∀ later, ∃ t, (g.run later).origin.streams[0]? = some t ∧ t.waiters.parked = [] := by
  intro config log acts g
  have unserved : ¬ g.origin.Serves 0 := by decide +kernel
  have there : g.origin.streams[0]?.isSome = true := by decide +kernel
  obtain ⟨s, there⟩ := Option.isSome_iff_exists.mp there
  have tidy : g.Tidy := removed_streams_hold_nobody config log acts
  refine ⟨by decide +kernel, by decide +kernel, fun later => ?_⟩
  obtain ⟨-, t, found, -, empty⟩ := tidy.quiet 0 s there unserved later
  exact ⟨t, found, empty⟩

end Gateway
end LiveHls
