import LiveHls.Proofs.Broadcast
import Mathlib.Data.List.Induction
/-! Waits, and all that can end them, in any order. Each wait is followed on its own: what it comes
to at once, or else the first incident after it that ends it, says whether it is still parked. -/
namespace LiveHls

namespace Waiters

variable {τ : Type}

/-- Who waits for what, in order of registration. -/
def waits (ws : Waiters τ) : List (τ × WaitTarget) :=
  ws.parked.map fun waiter => (waiter.tag, waiter.target)

/-- An operation ends each wait with the outcome that it has for it, and leaves the others. -/
structure Ends (ws : Waiters τ) (after : Waiters τ × Effects τ)
    (outcome? : τ × WaitTarget → Option WaitOutcome) : Prop where
  left : after.1.waits = ws.waits.filter fun wait => (outcome? wait).isNone
  released : after.2.released = ws.waits.filterMap fun wait => (outcome? wait).map (wait.1, ·)

theorem broadcast_ends (ws : Waiters τ) (w : Window) (event : Production) :
    ws.Ends (ws.broadcast w event) fun wait =>
      (wait.2.evaluate w (some event)).outcome? w where
  left := by simp [waits, broadcast, judge_left, List.filter_map, Function.comp_def]
  released := by
    simp only [waits, broadcast, judge_released, List.filterMap_map]
    rfl

theorem abandon_ends (ws : Waiters τ) (gone : τ → Bool) :
    ws.Ends (ws.abandon gone) fun wait =>
      if gone wait.1 then some (.error .abandoned) else none where
  left := by
    simp only [waits, abandon, List.filter_map, Function.comp_def]
    congr 2
    funext waiter
    cases gone waiter.tag <;> rfl
  released := by
    simp only [waits, abandon, ← List.filterMap_eq_map', ← List.filterMap_eq_filter,
      List.filterMap_filterMap]
    congr 1
    funext waiter
    cases leaves : gone waiter.tag <;> simp [leaves, Option.guard]

theorem close_ends (ws : Waiters τ) (fault : Fault) :
    ws.Ends (ws.close fault) fun _ => some (.error fault) where
  left := by simp [waits, close]
  released := by
    simp only [waits, close, Option.map_some, List.filterMap_eq_map', List.map_map]
    rfl

/-- What a wait comes to before it is parked, if anything. -/
def atOnce (closedWith : Option Fault) (target : WaitTarget) (w : Window) (clientLeft : Bool) :
    Option WaitOutcome :=
  match closedWith with
  | some fault => some (.error fault)
  | none => if clientLeft then some (.error .abandoned) else (target.evaluate w none).outcome? w

/-- A wait is parked where nothing can be said to it at once. -/
theorem wait_exact (ws : Waiters τ) (tag : τ) (target : WaitTarget) (w : Window)
    (clientLeft : Bool) :
    (ws.wait tag target w clientLeft).1.closedWith = ws.closedWith ∧
      (ws.wait tag target w clientLeft).2.1 = atOnce ws.closedWith target w clientLeft ∧
      (ws.wait tag target w clientLeft).1.waits =
        ws.waits ++ match atOnce ws.closedWith target w clientLeft with
          | none => [(tag, target)]
          | some _ => [] := by
  obtain ⟨label, parked, closedWith⟩ := ws
  unfold wait atOnce
  cases closedWith with
  | some fault => simp
  | none =>
      cases clientLeft with
      | true => simp
      | false =>
          cases target.evaluate w none with
          | ready => simp [Verdict.outcome?]
          | rejected fault => simp [Verdict.outcome?]
          | pending => simp [Verdict.outcome?, waits]

end Waiters

/-- Which wait it is, in the order in which they came, and the client that may leave, if any. -/
structure Registration (κ : Type) where
  serial : Nat
  client : Option κ

/-- What can happen to those who wait. -/
inductive Incident (κ : Type) where
  | wait (client : Option κ) (target : WaitTarget) (w : Window)
  | broadcast (w : Window) (event : Production)
  /-- A client leaves, whether it waits, has waited or has still to ask. -/
  | abort (client : κ)
  | close (fault : Fault)

namespace Incident

variable {κ : Type} [DecidableEq κ]

def isWait : Incident κ → Bool
  | .wait .. => true
  | _ => false

def closes? : Incident κ → Option Fault
  | .close fault => some fault
  | _ => none

def leaves? : Incident κ → Option κ
  | .abort client => some client
  | _ => none

/-- How a wait ends by an incident that applies to it. -/
def ends (client : Option κ) (target : WaitTarget) : Incident κ → Option WaitOutcome
  | .wait .. => none
  | .broadcast w event => (target.evaluate w (some event)).outcome? w
  | .abort leaver => if client = some leaver then some (.error .abandoned) else none
  | .close fault => some (.error fault)

/-- What closed those who wait, if they have been closed. -/
def closedBy (earlier : List (Incident κ)) : Option Fault :=
  (earlier.filterMap closes?).getLast?

/-- Whether a client has left. -/
def hasLeft (earlier : List (Incident κ)) (client : Option κ) : Bool :=
  client.any (earlier.filterMap leaves?).contains

/-- How a wait ends that comes between some incidents and others: at once, or else by the first
that applies to it. -/
def outcome (earlier : List (Incident κ)) (client : Option κ) (target : WaitTarget) (w : Window)
    (later : List (Incident κ)) : Option WaitOutcome :=
  (Waiters.atOnce (closedBy earlier) target w (hasLeft earlier client)).or
    (later.findSome? (ends client target))

end Incident

/-- Those who wait, with a record of what has been settled. -/
structure Registry (κ : Type) where
  waiters : Waiters (Registration κ)
  /-- How many waits there have been. -/
  count : Nat
  gone : List κ
  /-- The waits that have been settled, each with its outcome, in order. -/
  settled : List (Nat × WaitOutcome)

namespace Registry

variable {κ : Type}

def start (label : String) : Registry κ := ⟨.start label, 0, [], []⟩

/-- Takes over what an operation has released. -/
def record (r : Registry κ) (after : Waiters (Registration κ) × Effects (Registration κ)) :
    Registry κ :=
  { r with
    waiters := after.1
    settled := r.settled ++ after.2.released.map fun (waiting, outcome) =>
      (waiting.serial, outcome) }

section

variable [DecidableEq κ]

def step (r : Registry κ) : Incident κ → Registry κ
  | .wait client target w =>
      let (waiters, outcome?, _) :=
        r.waiters.wait ⟨r.count, client⟩ target w (client.any r.gone.contains)
      { r with
        waiters
        count := r.count + 1
        settled := r.settled ++ outcome?.toList.map (r.count, ·) }
  | .broadcast w event => r.record (r.waiters.broadcast w event)
  | .abort client =>
      { r.record (r.waiters.abandon (·.client = some client)) with gone := r.gone ++ [client] }
  | .close fault => r.record (r.waiters.close fault)

def run (r : Registry κ) (incidents : List (Incident κ)) : Registry κ := incidents.foldl step r

theorem run_append (r : Registry κ) (incidents later : List (Incident κ)) :
    r.run (incidents ++ later) = (r.run incidents).run later := List.foldl_append

theorem run_snoc (r : Registry κ) (incidents : List (Incident κ)) (last : Incident κ) :
    r.run (incidents ++ [last]) = (r.run incidents).step last := r.run_append incidents [last]

end

/-! ### One wait -/

/-- Where a wait stands: it is parked for its target, or it has been settled, with one outcome. -/
structure Stands (r : Registry κ) (waiting : Registration κ) (target : WaitTarget)
    (outcome? : Option WaitOutcome) : Prop where
  parked : (r.waiters.waits.filter fun wait => wait.1.serial = waiting.serial) =
    match outcome? with
    | none => [(waiting, target)]
    | some _ => []
  settled : (r.settled.filter fun entry => entry.1 = waiting.serial) =
    outcome?.toList.map (waiting.serial, ·)

variable {r : Registry κ} {waiting : Registration κ} {target : WaitTarget}
  {outcome? : Option WaitOutcome}

/-- What is released of one wait is what its own outcome is. -/
theorem released_of_serial (f : Registration κ × WaitTarget → Option WaitOutcome) (serial : Nat)
    (waits : List (Registration κ × WaitTarget)) :
    ((waits.filterMap fun wait => (f wait).map (wait.1, ·)).map fun entry =>
        (entry.1.serial, entry.2)).filter (·.1 = serial) =
      (waits.filter (·.1.serial = serial)).filterMap fun wait => (f wait).map (serial, ·) := by
  induction waits with
  | nil => rfl
  | cons first rest ih =>
      by_cases own : first.1.serial = serial
      · cases settled : f first <;> simp [settled, own, ih]
      · cases settled : f first <;> simp [settled, own, ih]

/-- An operation ends a parked wait with the outcome that it has for it, and is nothing to a wait
that has been settled. -/
theorem Stands.record {after : Waiters (Registration κ) × Effects (Registration κ)}
    {f : Registration κ × WaitTarget → Option WaitOutcome}
    (stands : r.Stands waiting target outcome?) (ends : r.waiters.Ends after f) :
    (r.record after).Stands waiting target (outcome?.or (f (waiting, target))) := by
  have parked : ((r.record after).waiters.waits.filter fun wait =>
      wait.1.serial = waiting.serial) =
        (r.waiters.waits.filter fun wait => wait.1.serial = waiting.serial).filter fun wait =>
          (f wait).isNone := by
    simp only [Registry.record, ends.left, List.filter_filter]
    exact List.filter_congr fun _ _ => Bool.and_comm _ _
  have settled : ((r.record after).settled.filter fun entry => entry.1 = waiting.serial) =
      (r.settled.filter fun entry => entry.1 = waiting.serial) ++
        (r.waiters.waits.filter fun wait => wait.1.serial = waiting.serial).filterMap fun wait =>
          (f wait).map (waiting.serial, ·) := by
    rw [← released_of_serial]
    simp only [Registry.record, ends.released, List.filter_append]
  rw [stands.parked] at parked settled
  rw [stands.settled] at settled
  cases outcome? with
  | some outcome => exact ⟨parked, settled⟩
  | none =>
      cases ended : f (waiting, target) with
      | none => exact ⟨by simpa [ended] using parked, by simpa [ended] using settled⟩
      | some outcome => exact ⟨by simpa [ended] using parked, by simpa [ended] using settled⟩

/-- What a step does that is no new wait. -/
structure Tells [DecidableEq κ] (r : Registry κ) (incident : Incident κ)
    (after : Waiters (Registration κ) × Effects (Registration κ)) : Prop where
  ends : r.waiters.Ends after fun wait => incident.ends wait.1.client wait.2
  waiters : (r.step incident).waiters = (r.record after).waiters
  settled : (r.step incident).settled = (r.record after).settled
  count : (r.step incident).count = r.count

/-- A step is a new wait, or every wait that is parked is told of it. -/
theorem step_cases [DecidableEq κ] (r : Registry κ) (incident : Incident κ) :
    (∃ client target w, incident = .wait client target w) ∨ ∃ after, r.Tells incident after := by
  cases incident with
  | wait client target w => exact .inl ⟨client, target, w, rfl⟩
  | broadcast w event => exact .inr ⟨_, r.waiters.broadcast_ends w event, rfl, rfl, rfl⟩
  | close fault => exact .inr ⟨_, r.waiters.close_ends fault, rfl, rfl, rfl⟩
  | abort client =>
      have ends := r.waiters.abandon_ends (·.client = some client)
      simp only [decide_eq_true_eq] at ends
      exact .inr ⟨_, ends, rfl, rfl, rfl⟩

theorem Stands.of_eq {t : Registry κ} (stands : r.Stands waiting target outcome?)
    (waiters : t.waiters = r.waiters) (settled : t.settled = r.settled) :
    t.Stands waiting target outcome? :=
  ⟨by rw [waiters, stands.parked], by rw [settled, stands.settled]⟩

/-- The waits of a run by their numbers. -/
theorem exists_wait {incidents : List (Incident κ)} {serial : Nat}
    (known : serial < incidents.countP (·.isWait)) :
    ∃ earlier client target w later, incidents = earlier ++ .wait client target w :: later ∧
      earlier.countP (·.isWait) = serial := by
  induction incidents using List.reverseRecOn with
  | nil => cases known
  | append_singleton incidents incident ih =>
      by_cases before : serial < incidents.countP (·.isWait)
      · obtain ⟨earlier, client, target, w, later, rfl, numbered⟩ := ih before
        exact ⟨earlier, client, target, w, later ++ [incident], by simp, numbered⟩
      · cases incident with
        | wait client target w =>
            refine ⟨incidents, client, target, w, [], rfl, ?_⟩
            have single : [Incident.wait client target w].countP (·.isWait) = 1 := rfl
            rw [List.countP_append, single] at known
            omega
        | broadcast w event => exact absurd (by simpa [Incident.isWait] using known) before
        | abort client => exact absurd (by simpa [Incident.isWait] using known) before
        | close fault => exact absurd (by simpa [Incident.isWait] using known) before

/-- A wait is parked as long as it has not been settled. -/
theorem Stands.parked_iff (stands : r.Stands waiting target outcome?) :
    (∃ wait ∈ r.waiters.waits, wait.1.serial = waiting.serial) ↔
      ∀ outcome, (waiting.serial, outcome) ∉ r.settled := by
  have parked := stands.parked
  have settled := stands.settled
  cases outcome? with
  | none =>
      have listed : (waiting, target) ∈
          r.waiters.waits.filter fun wait => wait.1.serial = waiting.serial := by
        rw [parked]
        exact List.mem_singleton_self _
      refine ⟨fun _ outcome member => ?_, fun _ => ⟨_, (List.mem_filter.mp listed).1, rfl⟩⟩
      exact List.filter_eq_nil_iff.mp settled _ member (by simp)
  | some outcome =>
      have listed : (waiting.serial, outcome) ∈
          r.settled.filter fun entry => entry.1 = waiting.serial := by
        rw [settled]
        exact List.mem_singleton_self _
      refine ⟨fun ⟨wait, member, own⟩ => ?_, fun unsettled => ?_⟩
      · exact absurd (by simpa using own) (List.filter_eq_nil_iff.mp parked wait member)
      · exact absurd (List.mem_filter.mp listed).1 (unsettled outcome)

/-- Only waits that there have been are parked or settled. -/
structure Numbered (r : Registry κ) : Prop where
  parked : ∀ wait ∈ r.waiters.waits, wait.1.serial < r.count
  settled : ∀ entry ∈ r.settled, entry.1 < r.count

theorem start_numbered (label : String) : (start label : Registry κ).Numbered := ⟨nofun, nofun⟩

variable [DecidableEq κ]

/-- A new wait is nothing to an older one. -/
theorem Stands.step_wait (stands : r.Stands waiting target outcome?)
    (older : waiting.serial < r.count) (client : Option κ) (other : WaitTarget) (w : Window) :
    (r.step (.wait client other w)).Stands waiting target outcome? := by
  obtain ⟨-, outcome, waits⟩ :=
    r.waiters.wait_exact ⟨r.count, client⟩ other w (client.any r.gone.contains)
  have newer : r.count ≠ waiting.serial := Nat.ne_of_gt older
  constructor
  · simp only [step, waits, List.filter_append, stands.parked]
    split <;> split <;> simp [newer]
  · simp only [step, outcome, List.filter_append, stands.settled]
    cases Waiters.atOnce r.waiters.closedWith other w (client.any r.gone.contains) with
    | none => simp
    | some now => simp [newer]

/-- Each incident ends a parked wait with the outcome that it has for it; a wait that has been
settled stays as it is. -/
theorem Stands.step (stands : r.Stands waiting target outcome?)
    (older : waiting.serial < r.count) (incident : Incident κ) :
    (r.step incident).Stands waiting target
      (outcome?.or (incident.ends waiting.client target)) := by
  rcases r.step_cases incident with ⟨client, other, w, rfl⟩ | ⟨after, tells⟩
  · rw [Incident.ends, Option.or_none]
    exact stands.step_wait older client other w
  · exact (stands.record tells.ends).of_eq tells.waiters tells.settled

/-! ### All of them -/

theorem Numbered.step_wait (numbered : r.Numbered) (client : Option κ) (target : WaitTarget)
    (w : Window) : (r.step (.wait client target w)).Numbered := by
  obtain ⟨-, outcome, waits⟩ :=
    r.waiters.wait_exact ⟨r.count, client⟩ target w (client.any r.gone.contains)
  constructor
  · intro wait member
    simp only [Registry.step, waits, List.mem_append] at member
    rcases member with old | now
    · exact Nat.lt_succ_of_lt (numbered.parked wait old)
    · split at now
      · obtain rfl := List.mem_singleton.mp now
        exact Nat.lt_succ_self _
      · cases now
  · intro entry member
    rcases List.mem_append.mp member with old | now
    · exact Nat.lt_succ_of_lt (numbered.settled entry old)
    · obtain ⟨outcome, -, rfl⟩ := List.mem_map.mp now
      exact Nat.lt_succ_self _

theorem Numbered.step (numbered : r.Numbered) (incident : Incident κ) :
    (r.step incident).Numbered := by
  rcases r.step_cases incident with ⟨client, target, w, rfl⟩ | ⟨after, tells⟩
  · exact numbered.step_wait client target w
  · constructor
    · intro wait member
      rw [tells.waiters, record, tells.ends.left] at member
      rw [tells.count]
      exact numbered.parked wait (List.mem_filter.mp member).1
    · intro entry member
      rw [tells.settled, record] at member
      rw [tells.count]
      rcases List.mem_append.mp member with old | now
      · exact numbered.settled entry old
      · obtain ⟨released, among, rfl⟩ := List.mem_map.mp now
        rw [tells.ends.released] at among
        obtain ⟨wait, parked, ended⟩ := List.mem_filterMap.mp among
        obtain ⟨outcome, -, rfl⟩ := Option.map_eq_some_iff.mp ended
        exact numbered.parked wait parked

/-- What is known of the incidents so far: how many waits there were, who has left, and what has
closed those who wait. -/
structure Tracks (r : Registry κ) (incidents : List (Incident κ)) : Prop where
  numbered : r.Numbered
  count : r.count = incidents.countP (·.isWait)
  gone : r.gone = incidents.filterMap (·.leaves?)
  closedWith : r.waiters.closedWith = Incident.closedBy incidents

theorem Tracks.step {incidents : List (Incident κ)} (tracks : r.Tracks incidents)
    (incident : Incident κ) : (r.step incident).Tracks (incidents ++ [incident]) := by
  obtain ⟨numbered, count, gone, closedWith⟩ := tracks
  refine ⟨numbered.step incident, ?_, ?_, ?_⟩
  · cases incident <;>
      simp [Registry.step, record, count, Incident.isWait, List.countP_append]
  · cases incident <;> simp [Registry.step, record, gone, Incident.leaves?]
  · unfold Incident.closedBy at closedWith ⊢
    rw [List.filterMap_append, List.getLast?_append]
    cases incident with
    | wait client target w =>
        exact (r.waiters.wait_exact _ target w _).1.trans closedWith
    | broadcast w event => exact closedWith
    | abort client => exact closedWith
    | close fault => rfl

theorem run_tracks (label : String) (incidents : List (Incident κ)) :
    ((start label).run incidents).Tracks incidents := by
  induction incidents using List.reverseRecOn with
  | nil => exact ⟨start_numbered label, rfl, rfl, rfl⟩
  | append_singleton incidents incident ih =>
      rw [run_snoc]
      exact ih.step incident

/-- A new wait is settled at once, or else it is parked. -/
theorem Tracks.registered {incidents : List (Incident κ)} (tracks : r.Tracks incidents)
    (client : Option κ) (target : WaitTarget) (w : Window) :
    (r.step (.wait client target w)).Stands ⟨r.count, client⟩ target
      (Waiters.atOnce (Incident.closedBy incidents) target w
        (Incident.hasLeft incidents client)) := by
  obtain ⟨-, outcome, waits⟩ :=
    r.waiters.wait_exact ⟨r.count, client⟩ target w (client.any r.gone.contains)
  have unparked : (r.waiters.waits.filter fun wait => wait.1.serial = r.count) = [] := by
    refine List.filter_eq_nil_iff.mpr fun wait member => ?_
    simpa using Nat.ne_of_lt (tracks.numbered.parked wait member)
  have unsettled : (r.settled.filter fun entry => entry.1 = r.count) = [] := by
    refine List.filter_eq_nil_iff.mpr fun entry member => ?_
    simpa using Nat.ne_of_lt (tracks.numbered.settled entry member)
  rw [Incident.hasLeft, ← tracks.gone, ← tracks.closedWith]
  constructor
  · simp only [Registry.step, waits, List.filter_append, unparked]
    split <;> simp
  · simp only [Registry.step, outcome, List.filter_append, unsettled]
    cases Waiters.atOnce r.waiters.closedWith target w (client.any r.gone.contains) with
    | none => simp
    | some now => simp

/-- Each wait of a run is where its own outcome says. -/
theorem run_stands (label : String) (earlier : List (Incident κ)) (client : Option κ)
    (target : WaitTarget) (w : Window) (later : List (Incident κ)) :
    ((start label).run (earlier ++ .wait client target w :: later)).Stands
      ⟨earlier.countP (·.isWait), client⟩ target
      (Incident.outcome earlier client target w later) := by
  induction later using List.reverseRecOn with
  | nil =>
      have tracks := run_tracks label earlier
      have registered := tracks.registered client target w
      rw [tracks.count] at registered
      rw [run_snoc, Incident.outcome, List.findSome?_nil, Option.or_none]
      exact registered
  | append_singleton later incident ih =>
      -- the wait is older than whatever comes next, which can therefore not be taken for it
      have tracks := run_tracks label (earlier ++ .wait client target w :: later)
      have older : earlier.countP (·.isWait) <
          ((start label).run (earlier ++ .wait client target w :: later)).count := by
        rw [tracks.count, List.countP_append, List.countP_cons]
        simp only [Incident.isWait, if_true]
        omega
      have next := ih.step older incident
      rw [← run_snoc] at next
      simpa [Incident.outcome, List.findSome?_append, Option.or_assoc] using next

example : Incident.outcome [] (some 0) .live .empty
    [.abort 1, .broadcast .empty .put, .abort 0, .close (.stopped "live")] =
      some (.error .abandoned) := rfl

theorem run_parked_iff (label : String) (incidents : List (Incident κ)) (serial : Nat) :
    (∃ wait ∈ ((start label).run incidents).waiters.waits, wait.1.serial = serial) ↔
      serial < incidents.countP (·.isWait) ∧
        ∀ outcome, (serial, outcome) ∉ ((start label).run incidents).settled := by
  have tracks := run_tracks label incidents
  constructor
  · rintro ⟨wait, member, rfl⟩
    have known := tracks.numbered.parked wait member
    rw [tracks.count] at known
    obtain ⟨earlier, client, target, w, later, rfl, numbered⟩ := exists_wait known
    have stands := run_stands label earlier client target w later
    rw [numbered] at stands
    exact ⟨known, stands.parked_iff.mp ⟨wait, member, rfl⟩⟩
  · rintro ⟨known, unsettled⟩
    obtain ⟨earlier, client, target, w, later, rfl, rfl⟩ := exists_wait known
    exact (run_stands label earlier client target w later).parked_iff.mpr unsettled

theorem step_settled (r : Registry κ) (incident : Incident κ) :
    r.settled <+: (r.step incident).settled := by
  cases incident <;> exact List.prefix_append _ _

theorem run_settled (r : Registry κ) (incidents : List (Incident κ)) :
    r.settled <+: (r.run incidents).settled := by
  induction incidents generalizing r with
  | nil => exact List.prefix_rfl
  | cons incident incidents ih => exact (r.step_settled incident).trans (ih _)

/-- A client that waits for nothing any more leaves unnoticed. -/
theorem step_abort (r : Registry κ) {client : κ}
    (idle : ∀ wait ∈ r.waiters.waits, wait.1.client ≠ some client) :
    (r.step (.abort client)).waiters.waits = r.waiters.waits ∧
      (r.step (.abort client)).settled = r.settled := by
  obtain ⟨left, released⟩ := r.waiters.abandon_ends (·.client = some client)
  have staying : ∀ wait ∈ r.waiters.waits,
      (if decide (wait.1.client = some client) then
        some (Except.error Fault.abandoned : WaitOutcome) else none) = none := by
    intro wait member
    rw [decide_eq_false (idle wait member)]
    rfl
  constructor
  · refine left.trans (List.filter_eq_self.mpr fun wait member => ?_)
    rw [staying wait member]
    rfl
  · have nothing : (r.waiters.abandon (·.client = some client)).2.released = [] := by
      refine released.trans (List.filterMap_eq_nil_iff.mpr fun wait member => ?_)
      rw [staying wait member]
      rfl
    simp only [step, record, nothing, List.map_nil, List.append_nil]

/-- Nothing is parked for a client that has left, nor for any once those who wait are closed. -/
theorem Tracks.step_refused {incidents : List (Incident κ)} (tracks : r.Tracks incidents)
    {client : Option κ} (target : WaitTarget) (w : Window)
    (refused : (∃ fault, .close fault ∈ incidents) ∨
      ∃ leaver, client = some leaver ∧ .abort leaver ∈ incidents) :
    (r.step (.wait client target w)).waiters.waits = r.waiters.waits := by
  obtain ⟨-, -, waits⟩ :=
    r.waiters.wait_exact ⟨r.count, client⟩ target w (client.any r.gone.contains)
  have settled : ∃ outcome, Waiters.atOnce r.waiters.closedWith target w
      (client.any r.gone.contains) = some outcome := by
    unfold Waiters.atOnce
    cases closed : r.waiters.closedWith with
    | some fault => exact ⟨_, rfl⟩
    | none =>
        rcases refused with ⟨fault, member⟩ | ⟨leaver, rfl, member⟩
        · rw [tracks.closedWith, Incident.closedBy, List.getLast?_eq_none_iff] at closed
          cases List.filterMap_eq_nil_iff.mp closed _ member
        · have left : r.gone.contains leaver = true := by
            rw [tracks.gone, List.contains_iff_mem]
            exact List.mem_filterMap.mpr ⟨_, member, rfl⟩
          exact ⟨.error .abandoned, if_pos left⟩
  obtain ⟨outcome, settled⟩ := settled
  rw [settled] at waits
  exact waits.trans (List.append_nil _)

/-- Every wait is settled once, by the first of the incidents that applies to it, and is parked
until then. -/
structure SettlesOnce (label : String) (incidents : List (Incident κ)) : Prop where
  /-- Those who are parked are the waits that have not been settled. -/
  parked : ∀ serial,
    (∃ wait ∈ ((start label).run incidents).waiters.waits, wait.1.serial = serial) ↔
      serial < incidents.countP (·.isWait) ∧
        ∀ outcome, (serial, outcome) ∉ ((start label).run incidents).settled
  /-- A wait is parked once, or it has one outcome, that of the first that applies to it. -/
  each : ∀ earlier client target w later,
    incidents = earlier ++ .wait client target w :: later →
      ((start label).run incidents).Stands ⟨earlier.countP (·.isWait), client⟩ target
        (Incident.outcome earlier client target w later)
  /-- What has been settled stays so. -/
  kept : ∀ later,
    ((start label).run incidents).settled <+: ((start label).run (incidents ++ later)).settled
  /-- A client that has nothing parked leaves all others where they are. -/
  unnoticed : ∀ client,
    (∀ wait ∈ ((start label).run incidents).waiters.waits, wait.1.client ≠ some client) →
      ((start label).run (incidents ++ [.abort client])).waiters.waits =
          ((start label).run incidents).waiters.waits ∧
        ((start label).run (incidents ++ [.abort client])).settled =
          ((start label).run incidents).settled
  /-- Nothing is parked once those who wait are closed, nor for a client that has left. -/
  refused : ∀ client target w,
    ((∃ fault, .close fault ∈ incidents) ∨
      ∃ leaver, client = some leaver ∧ .abort leaver ∈ incidents) →
      ((start label).run (incidents ++ [.wait client target w])).waiters.waits =
        ((start label).run incidents).waiters.waits

theorem settlesOnce (label : String) (incidents : List (Incident κ)) :
    SettlesOnce label incidents where
  parked := run_parked_iff label incidents
  each := by
    rintro earlier client target w later rfl
    exact run_stands label earlier client target w later
  kept := by
    intro later
    rw [run_append]
    exact run_settled _ later
  unnoticed := by
    intro client idle
    rw [run_snoc]
    exact step_abort _ idle
  refused := by
    intro client target w refused
    rw [run_snoc]
    exact (run_tracks label incidents).step_refused target w refused

end Registry

end LiveHls
