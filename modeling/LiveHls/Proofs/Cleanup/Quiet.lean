import Mathlib
import LiveHls.Proofs.Cleanup.Timers
/-! The cleanup through calls of start and stop, with time passing between them. Every start arms a
timer and a stop disarms the one of the last start only, so that a start while the cleanup is on
leaves a timer behind that nothing disarms any more. -/
namespace LiveHls.Cleanup

/-- The cleanup at work: its timers, the streams that it watches, and the clock. -/
structure Upkeep where
  cleanup : Cleanup
  origin : Origin
  now : Int

namespace Upkeep

inductive Event where
  | start
  | stop
  /-- So many milliseconds go by. -/
  | pass (elapsed : Nat)
  /-- Producers and clients have changed the streams. -/
  | change (origin : Origin)

def begin (config : CleanupConfig) (origin : Origin) (now : Int) : Upkeep :=
  ⟨.create config, origin, now⟩

def step (u : Upkeep) : Event → Upkeep × Log
  | .start =>
      let (cleanup, log) := u.cleanup.start u.now
      ({ u with cleanup }, log)
  | .stop =>
      let (cleanup, log) := u.cleanup.stop
      ({ u with cleanup }, log)
  | .pass elapsed =>
      let now := u.now + elapsed
      let (cleanup, origin, log) := u.cleanup.advance u.origin u.now now
      (⟨cleanup, origin, now⟩, log)
  | .change origin => ({ u with origin }, [])

def run (u : Upkeep) (events : List Event) : Upkeep := events.foldl (fun u e => (u.step e).1) u

/-- What has been asked for: whether the last call was a start, and how many starts came while it
was. -/
structure Calls where
  on : Bool
  restarts : Nat

def Calls.next (calls : Calls) : Event → Calls
  | .start => ⟨true, calls.restarts + calls.on.toNat⟩
  | .stop => { calls with on := false }
  | .pass _ => calls
  | .change _ => calls

def Calls.after (events : List Event) : Calls := events.foldl next ⟨false, 0⟩

/-- At most one timer is ever armed, and time alone does nothing while the cleanup is off. -/
def Quiet (u : Upkeep) (events : List Event) : Prop :=
  ∀ before, before <+: events →
    (u.run before).cleanup.armed.length ≤ 1 ∧
    ((Calls.after before).on = false → ∀ elapsed : Nat,
      (u.run before).step (.pass elapsed) =
        ({ u.run before with now := (u.run before).now + elapsed }, []))

/-! ### The timers against the calls -/

/-- The timers that the calls have left. -/
structure Follows (config : CleanupConfig) (u : Upkeep) (calls : Calls) : Prop where
  kept : u.cleanup.config = config
  ticking : u.cleanup.Ticking u.now
  armed : u.cleanup.armed.length = if config.enabled then calls.restarts + calls.on.toNat else 0
  remembered : u.cleanup.remembered.isSome = (config.enabled && calls.on)

variable {config : CleanupConfig} {o : Origin} {now : Int} {u : Upkeep} {calls : Calls}
  {events : List Event}

theorem begin_follows : (begin config o now).Follows config ⟨false, 0⟩ where
  kept := rfl
  ticking := create_ticking config now
  armed := (ite_self 0).symm
  remembered := (Bool.and_false _).symm

theorem Follows.start (follows : u.Follows config calls) :
    (u.step .start).1.Follows config (calls.next .start) := by
  obtain ⟨rfl, ticking, armed, remembered⟩ := follows
  have more : (u.step .start).1.cleanup.armed.length = _ := start_armed u.cleanup u.now
  have held : (u.step .start).1.cleanup.remembered.isSome = _ := start_remembered u.cleanup u.now
  refine ⟨start_config u.cleanup u.now, ticking.start, ?_, ?_⟩
  · rw [more, armed]
    cases u.cleanup.config.enabled <;> rfl
  · rw [held, remembered]
    cases u.cleanup.config.enabled <;> rfl

theorem Follows.stop (follows : u.Follows config calls) :
    (u.step .stop).1.Follows config (calls.next .stop) := by
  obtain ⟨rfl, ticking, armed, remembered⟩ := follows
  have fewer : (u.step .stop).1.cleanup.armed.length + _ = _ := ticking.stop_armed
  have held : (u.step .stop).1.cleanup.remembered = none := stop_remembered u.cleanup
  refine ⟨stop_config u.cleanup, ticking.stop, ?_, ?_⟩
  · rw [remembered, armed] at fewer
    cases enabled : u.cleanup.config.enabled with
    | false =>
        simp only [enabled, Bool.false_and, Bool.false_eq_true, if_false] at fewer ⊢
        exact fewer
    | true =>
        simp only [enabled, Bool.true_and, if_true] at fewer ⊢
        exact Nat.add_right_cancel fewer
  · rw [held, Calls.next, Bool.and_false]
    rfl

theorem Follows.pass (follows : u.Follows config calls) (elapsed : Nat) :
    (u.step (.pass elapsed)).1.Follows config calls := by
  obtain ⟨rfl, ticking, armed, remembered⟩ := follows
  obtain ⟨kept, same, -, ids⟩ := advance_frame u.cleanup u.origin u.now (u.now + elapsed)
  have timers := congrArg List.length ids
  rw [List.length_map, List.length_map] at timers
  exact ⟨kept, ticking.advance (Int.le_add_of_nonneg_right (Int.natCast_nonneg _)),
    timers.trans armed, (congrArg _ same).trans remembered⟩

theorem Follows.step (follows : u.Follows config calls) (event : Event) :
    (u.step event).1.Follows config (calls.next event) := by
  cases event with
  | start => exact follows.start
  | stop => exact follows.stop
  | pass elapsed => exact follows.pass elapsed
  | change _ => exact ⟨follows.kept, follows.ticking, follows.armed, follows.remembered⟩

theorem Follows.run (follows : u.Follows config calls) (events : List Event) :
    (u.run events).Follows config (events.foldl Calls.next calls) := by
  induction events generalizing u calls with
  | nil => exact follows
  | cons event rest ih => exact ih (follows.step event)

theorem restarts_le (calls : Calls) (event : Event) :
    calls.restarts ≤ (calls.next event).restarts := by
  cases event with
  | start => exact Nat.le_add_right _ _
  | stop | pass | change => exact Nat.le_refl _

theorem restarts_mono {before : List Event} (earlier : before <+: events) :
    (Calls.after before).restarts ≤ (Calls.after events).restarts := by
  obtain ⟨later, rfl⟩ := earlier
  rw [Calls.after, Calls.after, List.foldl_append]
  generalize before.foldl Calls.next _ = calls
  induction later generalizing calls with
  | nil => exact Nat.le_refl _
  | cons event rest ih => exact (restarts_le calls event).trans (ih _)

/-! ### Quiet while off -/

theorem Follows.unarmed (follows : u.Follows config calls) (off : calls.on = false)
    (kept : config.enabled = true → calls.restarts = 0) : u.cleanup.armed = [] := by
  refine List.eq_nil_of_length_eq_zero (follows.armed.trans ?_)
  split
  · rename_i enabled
    rw [kept enabled, off]
    rfl
  · rfl

theorem step_pass_of_unarmed (unarmed : u.cleanup.armed = []) (elapsed : Nat) :
    u.step (.pass elapsed) = ({ u with now := u.now + elapsed }, []) := by
  simp only [step, advance_of_unarmed unarmed]

/-- A timer that a start has left behind runs the cleanup within one period, and so on for ever. -/
theorem Follows.runs (follows : u.Follows config calls) (enabled : config.enabled = true)
    (again : calls.restarts ≠ 0) : (u.step (.pass u.cleanup.period)).2 ≠ [] := by
  have armed : 0 < u.cleanup.armed.length := by
    rw [follows.armed, if_pos enabled]
    omega
  obtain ⟨timer, armed⟩ := List.exists_mem_of_length_pos armed
  exact advance_of_due armed (follows.ticking.within timer armed)

/-- The cleanup is quiet while it is off exactly if it was never started while it was on: a timer
that is left behind by such a start runs the cleanup once in every period from then on. -/
theorem stopped_cleanup_is_quiet_iff (config : CleanupConfig) (o : Origin) (now : Int)
    (events : List Event) :
    let u := (begin config o now).run events
    ((begin config o now).Quiet events ↔
      (config.enabled = true → (Calls.after events).restarts = 0)) ∧
    (config.enabled = true → (Calls.after events).restarts ≠ 0 →
      (u.step (.pass u.cleanup.period)).2 ≠ []) := by
  intro u
  have follows (before) : ((begin config o now).run before).Follows config (Calls.after before) :=
    begin_follows.run before
  refine ⟨⟨fun quiet enabled => ?_, fun kept before earlier => ?_⟩, (follows events).runs⟩
  · obtain ⟨single, silent⟩ := quiet events List.prefix_rfl
    by_contra again
    cases on : (Calls.after events).on with
    | false => exact (follows events).runs enabled again (congrArg Prod.snd (silent on _))
    | true =>
        rw [(follows events).armed, if_pos enabled, on, Bool.toNat_true] at single
        omega
  · have first (enabled : config.enabled = true) : (Calls.after before).restarts = 0 :=
      Nat.eq_zero_of_le_zero (kept enabled ▸ restarts_mono earlier)
    refine ⟨(follows before).armed.trans_le ?_, fun off elapsed =>
      step_pass_of_unarmed ((follows before).unarmed off first) elapsed⟩
    split
    · rename_i enabled
      rw [first enabled, Nat.zero_add]
      exact Bool.toNat_le _
    · exact Nat.zero_le 1

/-- A cleanup that removes what has been idle for a second, once in a minute, with one stream that
was created at time 0. -/
def watchingOne : Upkeep :=
  let o := Origin.create ⟨6.0, 1.0, 5.0⟩
  let created := Stream.create "cam" o.settings o.config.windowSize 0
  begin ⟨true, 1000, 60000⟩ (created.toOption.elim o o.add) 0

/-- Starts that are told apart by stops leave the cleanup quiet. -/
theorem stopped_cleanup_is_quiet_of_two_starts :
    watchingOne.Quiet [.start, .pass 59999, .stop, .start, .stop, .stop] :=
  (stopped_cleanup_is_quiet_iff _ _ _ [.start, .pass 59999, .stop, .start, .stop, .stop]).1.mpr
    fun _ => rfl

/-- Two starts arm two timers, and the stop disarms one: the other removes the stream. -/
theorem stopped_cleanup_removes_a_stream :
    ¬ watchingOne.Quiet [.start, .start, .stop] ∧
    let u := watchingOne.run [.start, .start, .stop]
    (Calls.after [.start, .start, .stop]).on = false ∧
      u.origin.served.map (·.1) = ["cam"] ∧
      (u.step (.pass 60000)).1.origin.served.map (·.1) = [] := by
  refine ⟨fun quiet => ?_, rfl, by decide +kernel, by decide +kernel⟩
  have two : (watchingOne.run [.start, .start]).cleanup.armed.length = 2 := by decide +kernel
  exact absurd (quiet [.start, .start] ⟨[.stop], rfl⟩).1 (two ▸ by decide)

end Upkeep
end LiveHls.Cleanup
