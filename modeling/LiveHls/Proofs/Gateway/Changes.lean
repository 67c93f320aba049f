import LiveHls.Proofs.Gateway.Handling
import LiveHls.Proofs.Gateway.Run
/-! Acts as changes of the streams and of their names. An act other than a sweep lets one stream take
one step, or brings one stream, or takes one away; a sweep takes away all that are idle. What holds
of new streams and is kept by the steps that acts give holds of all streams of a run. -/
namespace LiveHls

namespace Act

/-- The call that an act makes, with the number of the request and the time. -/
def call? : Act → Option (Call × Nat × Int)
  | .http r request now => r.call?.map fun made => (made, request, now)
  | .call made request now => some (made, request, now)
  | .disconnect _ | .turn | .sweep .. => none

/-- What a call can ask of a stream that is served. -/
def Asks (act : Act) (event : Event) : Prop :=
  ∃ made asker now, act.call? = some (made, asker, now) ∧ (event.asks = some asker ∨
    ∃ production : ProducerCall, production.Sound ∧ event = .call production now)

/-- What happens to a stream without a request, whether it is served or not. -/
def Moves : Act → Event → Prop
  | .disconnect request, event => event = .leave request
  | .turn, event => ∃ taker, event = .turn taker
  | .http .., _ | .call .., _ | .sweep .., _ => False

/-- What an act can do to a stream. -/
def Gives (act : Act) (event : Event) : Prop := act.Asks event ∨ act.Moves event ∨ event = .stop

variable {act : Act}

theorem Moves.cases {event : Event} (moves : act.Moves event) :
    (∃ request, act = .disconnect request ∧ event = .leave request) ∨
      ∃ taker, event = .turn taker := by
  cases act with
  | disconnect request => exact .inl ⟨request, rfl, moves⟩
  | turn => exact .inr moves
  | http r request now | call call request now | sweep cleanup now => cases moves

/-- What producers do comes from calls, -/
theorem Gives.call {production : ProducerCall} {now : Int}
    (gives : act.Gives (.call production now)) :
    production.Sound ∧ ∃ made asker, act.call? = some (made, asker, now) := by
  rcases gives with ⟨made, asker, time, calls, asked | ⟨own, sound, same⟩⟩ | moves | stop
  · cases asked
  · cases same
    exact ⟨sound, made, asker, calls⟩
  · rcases moves.cases with ⟨request, -, same⟩ | ⟨taker, same⟩ <;> cases same
  · cases stop

/-- and clients leave because they disconnect. -/
theorem Gives.leave {leaver : Nat} (gives : act.Gives (.leave leaver)) : act = .disconnect leaver := by
  rcases gives with ⟨made, asker, time, calls, asked | ⟨own, -, same⟩⟩ | moves | stop
  · cases asked
  · cases same
  · rcases moves.cases with ⟨request, own, same⟩ | ⟨taker, same⟩
    · cases same
      exact own
    · cases same
  · cases stop

end Act

namespace Origin

variable {o after : Origin} {act : Act}

/-- What an act makes of the streams and their names, unless it is a sweep. -/
inductive Change (o : Origin) (act : Act) (after : Origin) : Prop
  | none (streams : after.streams = o.streams) (names : after.names = o.names)
  | asked {id : String} {i : Nat} {s : Stream} {event : Event} (found : o.find? id = some (i, s))
      (asks : act.Asks event) (streams : after.streams = o.streams.set i (s.step event))
      (names : after.names = o.names)
  | moved {i : Nat} {s : Stream} {event : Event} (found : o.streams[i]? = some s)
      (moves : act.Moves event) (streams : after.streams = o.streams.set i (s.step event))
      (names : after.names = o.names)
  | created {id : String} {s : Stream} {new : NewSegment} {now : Int} (unknown : o.find? id = .none)
      (created : Stream.create id o.settings o.config.windowSize now = .ok s)
      (asks : act.Asks (.call (.put new) now))
      (streams : after.streams = o.streams ++ [s.step (.call (.put new) now)])
      (names : after.names = setName id o.streams.length o.names)
  | removed {id : String} {i : Nat} {s : Stream} (found : o.find? id = some (i, s))
      (streams : after.streams = o.streams.set i (s.step .stop))
      (names : after.names = o.names.filter (·.1 ≠ id))

theorem create_id {id : String} {settings : Settings} {size : Float} {now : Int} {s : Stream}
    (created : Stream.create id settings size now = .ok s) : s.id = id := by
  obtain ⟨capacity, -, -, rfl⟩ := (Stream.create_eq_ok_iff id settings size now s).mp created
  rfl

theorem Effect.change {call : Call} {asker : Nat} {now : Int} {reply? : Option Reply}
    (effect : Effect o call asker now after reply?)
    (asks : ∀ event, (event.asks = some asker ∨
      ∃ made : ProducerCall, made.Sound ∧ event = .call made now) → act.Asks event) :
    Change o act after := by
  cases effect with
  | awaited awaits =>
      exact .asked awaits.found (asks _ (.inl awaits.asks)) awaits.streams awaits.names
  | answered answers =>
      cases answers with
      | told usual => exact .none rfl rfl
      | refused reason => exact .none rfl rfl
      | @produced i s stepped status text found made sound performed success =>
          refine .asked found (asks _ (.inr ⟨made, sound, rfl⟩)) ?_ rfl
          rw [Stream.step_call_ok performed]
          rfl
      | @created s new stepped unknown created sound performed =>
          refine .created unknown created (asks _ (.inr ⟨.put new, sound, rfl⟩)) ?_ ?_
          · rw [Stream.step_call_ok performed]
            show (o.streams ++ [s]).set o.streams.length stepped.1 = _
            simp
          · rw [← create_id created]
            rfl
      | removed found => exact .removed found rfl rfl

theorem disconnect_change (o : Origin) (request : Nat) :
    Change o (.disconnect request) (o.disconnect request).1 := by
  cases waiting : o.clients.find? (·.request = request) with
  | none =>
      simp only [disconnect, waiting]
      exact .none rfl rfl
  | some client =>
      cases found : o.streams[client.stream]? with
      | none =>
          simp only [disconnect, waiting, found]
          exact .none rfl rfl
      | some s =>
          refine .moved found rfl (disconnect_streams waiting found) ?_
          simp only [disconnect, waiting, found]
          rfl

/-! ### Sweeps -/

theorem stop_lastActivity (s : Stream) : s.stop.1.lastActivity = s.lastActivity := by
  unfold Stream.stop
  split <;> rfl

theorem stop_stop (s : Stream) : s.stop.1.stop.1 = s.stop.1 := by
  cases stopped : s.stopped <;> simp [Stream.stop, stopped, Stream.release]

/-- The stream at a place has been idle since before `cutoff`. -/
def idle (o : Origin) (cutoff : Int) (i : Nat) : Bool := o.streams[i]?.any (·.lastActivity < cutoff)

theorem retire_idle (o : Origin) {id : String} {i : Nat} {s : Stream} (found : o.streams[i]? = some s)
    (cutoff : Int) : (o.retire id i s).1.idle cutoff = o.idle cutoff := by
  funext j
  show ((o.streams.set i s.stop.1)[j]?).any _ = _
  rw [List.getElem?_set]
  split
  · rename_i same
    subst same
    simp only [idle, found, (List.getElem?_eq_some_iff.mp found).1, if_true, Option.any_some,
      stop_lastActivity]
  · rfl

/-- A sweep takes away the names listed whose streams are idle, -/
theorem removeFrom_names (now cutoff : Int) (names : List (String × Nat)) (o : Origin) :
    (Cleanup.removeFrom now cutoff names o).2.1 =
        (names.filter fun name => o.idle cutoff name.2).map (·.1) ∧
      (Cleanup.removeFrom now cutoff names o).1.names =
        o.names.filter (·.1 ∉ (Cleanup.removeFrom now cutoff names o).2.1) := by
  induction names generalizing o with
  | nil => simp [Cleanup.removeFrom]
  | cons name rest ih =>
      obtain ⟨id, i⟩ := name
      unfold Cleanup.removeFrom
      cases found : o.streams[i]? with
      | none =>
          have kept : o.idle cutoff i = false := by simp only [idle, found, Option.any_none]
          simp only [List.filter_cons, kept, Bool.false_eq_true, if_false]
          exact ih o
      | some s =>
          simp only
          split
          · rename_i old
            have gone : o.idle cutoff i = true := by
              simpa only [idle, found, Option.any_some, decide_eq_true_eq] using old
            obtain ⟨removed, names⟩ := ih (o.retire id i s).1
            rw [retire_idle o found] at removed
            simp only [List.filter_cons, gone, if_true, List.map_cons, removed, true_and]
            rw [names, removed]
            show (o.names.filter _).filter _ = _
            rw [List.filter_filter]
            congr 1
            funext other
            simp only [List.mem_cons, not_or, Bool.decide_and, decide_not, Bool.and_comm]
          · rename_i active
            have kept : o.idle cutoff i = false := by
              simpa only [idle, found, Option.any_some, decide_eq_false_iff_not] using active
            simp only [List.filter_cons, kept, Bool.false_eq_true, if_false]
            exact ih o

/-- and stops those streams; it leaves all others as they are. -/
theorem removeFrom_streams (now cutoff : Int) (names : List (String × Nat)) (o : Origin) (j : Nat) :
    (Cleanup.removeFrom now cutoff names o).1.streams[j]? =
      if j ∈ names.map (·.2) ∧ o.idle cutoff j then o.streams[j]?.map (·.stop.1)
      else o.streams[j]? := by
  induction names generalizing o with
  | nil => simp [Cleanup.removeFrom]
  | cons name rest ih =>
      obtain ⟨id, i⟩ := name
      unfold Cleanup.removeFrom
      cases found : o.streams[i]? with
      | none =>
          rw [ih o]
          by_cases own : j = i
          · subst own
            simp [found]
          · simp only [List.map_cons, List.mem_cons, own, false_or]
      | some s =>
          simp only
          split
          · rename_i old
            rw [ih, retire_idle o found]
            show (if _ then ((o.streams.set i s.stop.1)[j]?).map _ else (o.streams.set i s.stop.1)[j]?) = _
            by_cases own : j = i
            · subst own
              have gone : o.idle cutoff j = true := by
                simpa only [idle, found, Option.any_some, decide_eq_true_eq] using old
              rw [List.getElem?_set_self (List.getElem?_eq_some_iff.mp found).1]
              simp [gone, found, stop_stop]
            · simp only [List.getElem?_set_ne (Ne.symm own), List.map_cons, List.mem_cons, own,
                false_or]
          · rename_i active
            rw [ih o]
            by_cases own : j = i
            · subst own
              have kept : o.idle cutoff j = false := by
                simpa only [idle, found, Option.any_some, decide_eq_false_iff_not] using active
              simp only [kept, Bool.false_eq_true, and_false, if_false]
            · simp only [List.map_cons, List.mem_cons, own, false_or]

/-! ### Acts -/

/-- What holds of every new stream and is kept by the steps that an act gives. -/
structure Kept (act : Act) (P : Stream → Prop) : Prop where
  created : ∀ {id settings size now s}, Stream.create id settings size now = .ok s → P s
  step : ∀ {s event}, act.Gives event → P s → P (s.step event)

theorem forall_set {P : Stream → Prop} {streams : List Stream} {i : Nat} {t : Stream}
    (all : ∀ s ∈ streams, P s) (changed : P t) : ∀ s ∈ streams.set i t, P s := by
  intro s member
  rcases List.mem_or_eq_of_mem_set member with before | rfl
  · exact all s before
  · exact changed

theorem Change.forall {P : Stream → Prop} (change : Change o act after) (kept : Kept act P)
    (all : ∀ s ∈ o.streams, P s) : ∀ s ∈ after.streams, P s := by
  cases change with
  | none streams names => rwa [streams]
  | asked found asks streams names =>
      rw [streams]
      exact forall_set all (kept.step (.inl asks) (all _ (List.mem_of_getElem? (find?_streams found))))
  | moved found moves streams names =>
      rw [streams]
      exact forall_set all (kept.step (.inr (.inl moves)) (all _ (List.mem_of_getElem? found)))
  | created unknown created asks streams names =>
      rw [streams]
      exact List.forall_mem_append.mpr ⟨all, List.forall_mem_singleton.mpr
        (kept.step (.inl asks) (kept.created created))⟩
  | removed found streams names =>
      rw [streams]
      exact forall_set all
        (kept.step (.inr (.inr rfl)) (all _ (List.mem_of_getElem? (find?_streams found))))

theorem removeIdle_forall {P : Stream → Prop} {cleanup : CleanupConfig} {now : Int}
    (stops : ∀ s, P s → P s.stop.1) (all : ∀ s ∈ o.streams, P s) :
    ∀ s ∈ (Cleanup.removeIdle cleanup o now).1.streams, P s := by
  intro t member
  obtain ⟨j, found⟩ := List.getElem?_of_mem member
  have found : (Cleanup.removeFrom now (now - cleanup.idleTimeout) o.names o).1.streams[j]? = some t :=
    found
  rw [removeFrom_streams] at found
  split at found
  · obtain ⟨s, there, rfl⟩ := Option.map_eq_some_iff.mp found
    exact stops s (all s (List.mem_of_getElem? there))
  · exact all t (List.mem_of_getElem? found)

end Origin

namespace Gateway

open Origin (Change Kept Effect Takes)

/-- What an act comes to at the origin, and what is replied. -/
inductive Does (o : Origin) : Act → Origin → List (Nat × Reply) → Prop
  | called {act : Act} {call : Call} {asker : Nat} {now : Int} {after : Origin}
      {reply? : Option Reply} (made : act.call? = some (call, asker, now))
      (effect : Effect o call asker now after reply?) :
      Does o act after (reply?.toList.map fun reply => (asker, Origin.transfer call.overHttp reply))
  | page {r : HttpRequest} {asker : Nat} {now : Int} {reply : Reply} (static : r.call? = none) :
      Does o (.http r asker now) o [(asker, reply)]
  | disconnect (leaver : Nat) : Does o (.disconnect leaver) (o.disconnect leaver).1 []
  | turn {after : Origin} {reply? : Option (Nat × Reply)} (takes : Takes o after reply?) :
      Does o .turn after reply?.toList
  | idle (quiet : o.turn = none) : Does o .turn o []
  | sweep (cleanup : CleanupConfig) (now : Int) :
      Does o (.sweep cleanup now) (Cleanup.removeIdle cleanup o now).1 []

theorem act_does (g : Gateway) (act : Act) : Does g.origin act (g.act act).1.origin (g.act act).2 := by
  have calls {act : Act} {call : Call} {asker : Nat} {now : Int}
      (made : act.call? = some (call, asker, now))
      (same : (g.act act).1 = (g.call call asker now).1)
      (replies : (g.act act).2 = (g.call call asker now).2.2.toList.map (asker, ·)) :
      Does g.origin act (g.act act).1.origin (g.act act).2 := by
    rw [same, replies]
    show Does g.origin act (dispatch g.origin call asker now).origin
      (((dispatch g.origin call asker now).reply.map (Origin.transfer call.overHttp)).toList.map
        (asker, ·))
    rw [Option.toList_map, List.map_map]
    exact .called made (dispatch_effect g.origin call asker now)
  cases act with
  | http r asker now =>
      cases made : r.call? with
      | none =>
          obtain ⟨origin, replied⟩ := @http_page g r made asker now
          obtain ⟨reply, replied⟩ := Option.isSome_iff_exists.mp replied
          simp only [act, origin, replied]
          exact .page made
      | some call =>
          obtain ⟨same, replied⟩ := @http_call g r call made asker now
          refine calls (by simp only [Act.call?, made, Option.map_some]) same ?_
          simp only [act, replied]
  | call call asker now => exact calls rfl rfl rfl
  | disconnect leaver => exact .disconnect leaver
  | turn =>
      rw [act]
      cases taken : g.origin.turn with
      | none => exact .idle taken
      | some result => exact .turn (Origin.turn_takes taken)
  | sweep cleanup now => exact .sweep cleanup now

theorem act_change (g : Gateway) (act : Act) :
    (∃ cleanup now, act = .sweep cleanup now) ∨ Change g.origin act (g.act act).1.origin := by
  have does := g.act_does act
  generalize (g.act act).1.origin = after at does ⊢
  generalize (g.act act).2 = replies at does
  cases does with
  | called made effect => exact .inr (effect.change fun event asks => ⟨_, _, _, made, asks⟩)
  | page static => exact .inr (.none rfl rfl)
  | disconnect leaver => exact .inr (g.origin.disconnect_change leaver)
  | idle quiet => exact .inr (.none rfl rfl)
  | sweep cleanup now => exact .inl ⟨cleanup, now, rfl⟩
  | turn takes =>
      right
      cases takes with
      | stale queue nothing same => exact .none (by rw [same]) (by rw [same])
      | @undelivered i s next turned clients unawaited =>
          exact .moved turned.found ⟨next.request, rfl⟩ turned.streams turned.names
      | @delivered i s next client outcome turned waiting delivered clients =>
          exact .moved turned.found ⟨next.request, rfl⟩ turned.streams turned.names

theorem act_forall {P : Stream → Prop} {g : Gateway} {act : Act} (kept : Kept act P)
    (all : ∀ s ∈ g.origin.streams, P s) : ∀ s ∈ (g.act act).1.origin.streams, P s := by
  rcases g.act_change act with ⟨cleanup, now, rfl⟩ | change
  · exact Origin.removeIdle_forall (fun s => kept.step (.inr (.inr rfl))) all
  · exact change.forall kept all

theorem run_forall {P : Stream → Prop} {g : Gateway} {acts : List Act}
    (kept : ∀ act ∈ acts, Kept act P) (all : ∀ s ∈ g.origin.streams, P s) :
    ∀ s ∈ (g.run acts).origin.streams, P s := by
  induction acts generalizing g with
  | nil => exact all
  | cons act acts ih =>
      exact ih (fun later member => kept later (List.mem_cons_of_mem _ member))
        (act_forall (kept act List.mem_cons_self) all)

end Gateway
end LiveHls
