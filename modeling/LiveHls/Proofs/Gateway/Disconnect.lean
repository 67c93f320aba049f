import LiveHls.Proofs.Gateway.Handling
import LiveHls.Proofs.Gateway.Run
import LiveHls.Proofs.Waiters.Settling
/-! Clients that leave while their requests wait. Requests, turns, clients that leave and rounds of
the cleanup come in any order, and one request is followed through them: before it is made no
stream knows it, then one stream has it, and if its client leaves while it waits, it ends unsent. -/
namespace LiveHls

/-! ### One request in all streams -/

/-- What is so of a request before it is made, and stays so in every step but the making of it. -/
structure Phase.Lasting (request : Nat) (Q : Phase → Prop) : Prop where
  absent : Q .absent
  step : ∀ {s event p next}, Phase.Step s request event p next → Q p → Q next

theorem Phase.lasting_absent (request : Nat) : Phase.Lasting request (· = .absent) where
  absent := rfl
  step := by
    rintro s event p next step rfl
    cases step
    rfl

theorem Phase.lasting_any (request : Nat) : Phase.Lasting request fun _ => True :=
  ⟨trivial, fun _ _ => trivial⟩

/-- The request is on its way to nothing, or to its end without an answer. -/
def Phase.Dismissed (p : Phase) : Prop :=
  p = .absent ∨ (∃ stage, p = .resumes stage (.error .abandoned)) ∨
    ∃ steps, p = .told steps (.error .abandoned)

theorem Phase.lasting_dismissed (request : Nat) : Phase.Lasting request Phase.Dismissed where
  absent := .inl rfl
  step := by
    rintro s event p next step (rfl | ⟨stage, rfl⟩ | ⟨steps, rfl⟩)
    · cases step
      exact .inl rfl
    · cases step with
      | resumesLater other => exact .inr (.inl ⟨stage, rfl⟩)
      | resumed =>
          right
          right
          cases stage with
          | playlist blocking => exact ⟨0, rfl⟩
          | appearance number range => exact ⟨0, rfl⟩
          | hold sequence range => exact ⟨1, rfl⟩
    · cases step with
      | toldLater other => exact .inr (.inr ⟨steps, rfl⟩)
      | relayed => exact .inr (.inr ⟨_, rfl⟩)
      | arrived => exact .inl rfl

namespace Origin

variable {o : Origin} {request : Nat}

/-- Where the request stands in each stream. -/
def Within (streams : List Stream) (request : Nat) (Q : Nat → Phase → Prop) : Prop :=
  ∀ i s, streams[i]? = some s → ∃ p, s.At request p ∧ Q i p

theorem Within.set {streams : List Stream} {Q : Nat → Phase → Prop} {i : Nat} {t : Stream}
    (within : Within streams request Q) (changed : ∃ p, t.At request p ∧ Q i p) :
    Within (streams.set i t) request Q := by
  intro j s found
  rw [List.getElem?_set] at found
  split at found
  · rename_i same
    subst same
    split at found
    · cases found
      exact changed
    · cases found
  · exact within j s found

theorem Evolves.within {streams later : List Stream} {Q : Nat → Phase → Prop}
    (evolves : Evolves request streams later) (lasting : ∀ i, Phase.Lasting request (Q i))
    (within : Within streams request Q) : Within later request Q := by
  induction evolves with
  | refl => exact within
  | step before found unasked ih =>
      obtain ⟨p, now, holds⟩ := ih _ _ found
      obtain ⟨next, step, after⟩ := now.step _ unasked
      exact ih.set ⟨next, after, (lasting _).step step holds⟩
  | add before created ih =>
      intro i s found
      rw [List.getElem?_append] at found
      split at found
      · exact ih i s found
      · obtain rfl := List.mem_singleton.mp (List.mem_of_getElem? found)
        exact ⟨.absent, (Stream.create_at created request).1, (lasting i).absent⟩

/-- No stream knows the request. -/
def Idle (o : Origin) (request : Nat) : Prop := Within o.streams request fun _ p => p = .absent

/-- Only one stream can know the request, and there its client waits. -/
structure Held (o : Origin) (request i : Nat) : Prop where
  streams : Within o.streams request fun j p => j = i ∨ p = .absent
  waiting : ∃ client ∈ o.clients, client.request = request
  place : ∀ client ∈ o.clients, client.request = request → client.stream = i

theorem lasting_held (request i : Nat) :
    ∀ j, Phase.Lasting request fun p => j = i ∨ p = .absent := by
  intro j
  by_cases same : j = i
  · simpa [same] using Phase.lasting_any request
  · simpa [same] using Phase.lasting_absent request

theorem Idle.not_waiting (idle : o.Idle request) : ∀ s ∈ o.streams, s.waitsOf request = [] := by
  intro s member
  obtain ⟨i, found⟩ := List.getElem?_of_mem member
  obtain ⟨p, absent, rfl⟩ := idle i s found
  exact absent.waiting

/-! ### Acts -/

/-- What an act does that does not make the request: its outcome may be delivered. -/
inductive Follows (request : Nat) (o after : Origin) (replies : List (Nat × Reply)) : Prop
  | unanswered (evolves : Evolves request o.streams after.streams)
      (clients : (∃ client ∈ o.clients, client.request = request) →
        ∃ client ∈ after.clients, client.request = request)
      (known : ∀ client ∈ after.clients, client.request = request → client ∈ o.clients)
      (silent : ∀ reply, (request, reply) ∉ replies)
  | delivered {i : Nat} {s : Stream} {outcome : Outcome} (client : Client)
      (found : o.streams[i]? = some s)
      (delivery : s.delivery (.turn request) = some (request, outcome))
      (streams : after.streams = o.streams.set i (s.step (.turn request)))
      (clients : ∀ client ∈ after.clients, client.request ≠ request)
      (replied : replies = [(request, transfer client.overHttp (deliver client outcome).2)])

theorem Evolves.follows {after : Origin} {replies : List (Nat × Reply)}
    (evolves : Evolves request o.streams after.streams) (clients : after.clients = o.clients)
    (silent : ∀ reply, (request, reply) ∉ replies) : Follows request o after replies :=
  .unanswered evolves (clients ▸ id) (fun _ member _ => clients ▸ member) silent

theorem Handles.follows {after : Origin} {reply? : Option Reply} {asker : Nat}
    (handles : Handles asker o after reply?) (other : asker ≠ request) :
    Follows request o after (reply?.toList.map (asker, ·)) := by
  have silent : ∀ reply, (request, reply) ∉ reply?.toList.map (asker, ·) := by
    intro reply member
    obtain ⟨sent, -, same⟩ := List.mem_map.mp member
    exact other (congrArg Prod.fst same)
  rcases handles with ⟨replied, clients, streams⟩ | ⟨i, s, event, awaited⟩
  · exact (streams request).follows clients silent
  · obtain ⟨client, clients, named, -⟩ := awaited.client
    refine .unanswered ?_ ?_ ?_ silent
    · rw [awaited.streams]
      refine .step .refl awaited.found ?_
      rw [awaited.asks]
      exact fun same => other (Option.some.inj same)
    · rintro ⟨known, member, own⟩
      exact ⟨known, clients ▸ List.mem_append_left _ member, own⟩
    · intro known member own
      rw [clients, List.mem_append, List.mem_singleton] at member
      rcases member with before | rfl
      · exact before
      · exact absurd (named.symm.trans own) other

theorem turn_follows {after : Origin} {log : Log} {reply? : Option (Nat × Reply)}
    (taken : o.turn = some (after, log, reply?)) : Follows request o after reply?.toList := by
  have evolves {i : Nat} {s : Stream} {next : Turn} (turned : Turned o after i s next) :
      Evolves request o.streams after.streams := turned.streams ▸ .step .refl turned.found nofun
  cases turn_takes taken with
  | stale queue nothing same =>
      have evolves : Evolves request o.streams after.streams := same ▸ .refl
      exact evolves.follows (same ▸ rfl) nofun
  | undelivered turned clients unawaited => exact (evolves turned).follows clients nofun
  | @delivered i s next client outcome turned waiting delivered clients =>
      by_cases own : client.request = request
      · subst own
        have same := Stream.delivery_taker delivered
        have streams := turned.streams
        rw [same] at delivered streams
        refine .delivered client turned.found delivered streams ?_ rfl
        intro known member
        rw [clients] at member
        simpa using (List.mem_filter.mp member).2
      · refine .unanswered (evolves turned) ?_ ?_ ?_
        · rintro ⟨known, member, named⟩
          refine ⟨known, ?_, named⟩
          rw [clients]
          exact List.mem_filter.mpr ⟨member, by simpa [named] using Ne.symm own⟩
        · intro known member _
          rw [clients] at member
          exact (List.mem_filter.mp member).1
        · intro reply member
          have same := List.mem_singleton.mp member
          exact own (congrArg Prod.fst same).symm

/-- A request that is made is answered at once, or one stream has it and its client waits. -/
theorem Idle.asked {after : Origin} {reply? : Option Reply} (idle : o.Idle request)
    (unknown : ∀ client ∈ o.clients, client.request ≠ request)
    (handles : Handles request o after reply?) :
    after.Idle request ∨ ∃ i, after.Held request i ∧ reply? = none := by
  rcases handles with answered | ⟨i, s, event, awaited⟩
  · exact .inl ((answered.streams request).within (fun _ => Phase.lasting_absent request) idle)
  · obtain ⟨client, clients, named, place⟩ := awaited.client
    refine .inr ⟨i, ⟨?_, ⟨client, by simp [clients], named⟩, ?_⟩, awaited.unanswered⟩
    · obtain ⟨p, absent, rfl⟩ := idle i s awaited.found
      obtain ⟨p, now⟩ := absent.asks_step awaited.asks
      rw [awaited.streams]
      refine Within.set ?_ ⟨p, now, .inl rfl⟩
      intro j t found
      obtain ⟨p, there, absent⟩ := idle j t found
      exact ⟨p, there, .inr absent⟩
    · intro known member own
      rw [clients, List.mem_append, List.mem_singleton] at member
      rcases member with before | rfl
      · exact absurd own (unknown known before)
      · exact place

theorem Idle.follows {after : Origin} {replies : List (Nat × Reply)} (idle : o.Idle request)
    (follows : Follows request o after replies) :
    after.Idle request ∧ ∀ reply, (request, reply) ∉ replies := by
  cases follows with
  | unanswered evolves clients known silent =>
      exact ⟨evolves.within (fun _ => Phase.lasting_absent request) idle, silent⟩
  | delivered client found delivery streams clients replied =>
      obtain ⟨p, absent, rfl⟩ := idle _ _ found
      cases ((absent.delivery _ _).mp delivery).1

/-- What becomes of the one stream that can know the request decides about all. -/
theorem Held.set {i : Nat} {t : Stream} {Q : Phase → Prop} (held : o.Held request i)
    (absent : Q .absent) (changed : ∃ p, t.At request p ∧ Q p) :
    Within (o.streams.set i t) request fun _ => Q := by
  intro j s found
  rw [List.getElem?_set] at found
  split at found
  · split at found
    · cases found
      exact changed
    · cases found
  · rename_i other
    obtain ⟨p, there, same | unknown⟩ := held.streams j s found
    · exact absurd same.symm other
    · exact ⟨p, there, unknown ▸ absent⟩

/-- A client waits for its request until the outcome is delivered; then nothing knows the request
any more. -/
theorem Held.follows {after : Origin} {replies : List (Nat × Reply)} {i : Nat}
    (held : o.Held request i) (follows : Follows request o after replies) :
    after.Idle request ∨ after.Held request i ∧ ∀ reply, (request, reply) ∉ replies := by
  cases follows with
  | unanswered evolves clients known silent =>
      exact .inr ⟨⟨evolves.within (lasting_held request i) held.streams, clients held.waiting,
        fun client member own => held.place client (known client member own) own⟩, silent⟩
  | @delivered j s outcome client found delivery streams clients replied =>
      left
      -- the stream that hands out the outcome is the one that had the request, and it keeps nothing
      obtain ⟨p, there, only⟩ := held.streams j s found
      obtain ⟨rfl, -⟩ := (there.delivery _ _).mp delivery
      obtain rfl : j = i := by simpa using only
      obtain ⟨next, step, now⟩ := there.step (.turn request) nofun
      have absent : next = .absent := by
        cases step with
        | toldLater other => exact absurd rfl other
        | arrived => rfl
      rw [Idle, streams]
      exact held.set rfl ⟨next, now, absent⟩

/-- A client that leaves while its request waits dismisses it. -/
theorem Held.disconnect {i : Nat} (held : o.Held request i)
    (waits : ∃ s ∈ o.streams, s.waitsOf request ≠ []) :
    Within (o.disconnect request).1.streams request fun _ => Phase.Dismissed := by
  obtain ⟨s, member, waits⟩ := waits
  obtain ⟨j, found⟩ := List.getElem?_of_mem member
  obtain ⟨p, there, only⟩ := held.streams j s found
  rcases p.waits_or with ⟨stage, target, rfl⟩ | quiet
  · obtain rfl : j = i := by simpa using only
    obtain ⟨client, waiting⟩ : ∃ client, o.clients.find? (·.request = request) = some client := by
      obtain ⟨client, known, own⟩ := held.waiting
      refine Option.isSome_iff_exists.mp (List.find?_isSome.mpr ⟨client, known, ?_⟩)
      exact decide_eq_true own
    have place : client.stream = j :=
      held.place client (List.mem_of_find?_eq_some waiting) (by simpa using List.find?_some waiting)
    subst place
    obtain ⟨next, step, now⟩ := there.step (.leave request) nofun
    have dismissed : next.Dismissed := by
      cases step with
      | undisturbed unsettled stopped stays => exact absurd rfl stays
      | abandoned => exact .inr (.inl ⟨stage, rfl⟩)
    rw [disconnect_streams waiting found]
    exact held.set (.inl rfl) ⟨next, now, dismissed⟩
  · exact absurd (there.waiting.trans (quiet request)) waits

theorem deliver_abandoned (client : Client) :
    transfer client.overHttp (deliver client (.error .abandoned)).2 = .unsent := rfl

/-- A request that has been dismissed may end, but nothing is sent. -/
theorem dismissed_follows {after : Origin} {replies : List (Nat × Reply)}
    (dismissed : Within o.streams request fun _ => Phase.Dismissed)
    (follows : Follows request o after replies) :
    (Within after.streams request fun _ => Phase.Dismissed) ∧
      ∀ reply, (request, reply) ∈ replies → reply = .unsent := by
  cases follows with
  | unanswered evolves clients known silent =>
      exact ⟨evolves.within (fun _ => Phase.lasting_dismissed request) dismissed,
        fun reply member => absurd member (silent reply)⟩
  | delivered client found delivery streams clients replied =>
      have evolves : Evolves request o.streams after.streams := streams ▸ .step .refl found nofun
      constructor
      · exact evolves.within (fun _ => Phase.lasting_dismissed request) dismissed
      · obtain ⟨p, there, unsent⟩ := dismissed _ _ found
        obtain ⟨rfl, -⟩ := (there.delivery _ _).mp delivery
        intro reply member
        rw [replied, List.mem_singleton] at member
        cases member
        rcases unsent with absent | ⟨stage, resumes⟩ | ⟨steps, same⟩
        · cases absent
        · cases resumes
        · cases same
          exact deliver_abandoned client

end Origin

namespace Gateway

open Origin (Held Within Follows)

variable {g : Gateway} {request : Nat}

theorem act_follows (g : Gateway) (act : Act) (other : act.asks ≠ some request) :
    Follows request g.origin (g.act act).1.origin (g.act act).2 := by
  cases act with
  | http r asker now =>
      exact (g.http_handles r asker now).follows fun same => other (congrArg some same)
  | call call asker now =>
      exact (g.call_handles call asker now).follows fun same => other (congrArg some same)
  | disconnect leaver =>
      exact (g.origin.disconnect_evolves leaver).follows (g.origin.disconnect_clients leaver) nofun
  | turn =>
      unfold act
      cases taken : g.origin.turn with
      | none => exact Origin.Evolves.refl.follows rfl nofun
      | some result => exact Origin.turn_follows taken
  | sweep config now =>
      obtain ⟨evolves, clients⟩ := g.origin.removeFrom_evolves now (now - config.idleTimeout)
        g.origin.names
      exact evolves.follows clients nofun

theorem act_asked (g : Gateway) (act : Act) (asks : act.asks = some request) :
    ∃ reply?, Origin.Handles request g.origin (g.act act).1.origin reply? ∧
      (reply? = none → (g.act act).2 = []) := by
  cases act with
  | http r asker now =>
      obtain rfl : asker = request := Option.some.inj asks
      exact ⟨_, g.http_handles r asker now, fun refused => by simp [act, refused]⟩
  | call call asker now =>
      obtain rfl : asker = request := Option.some.inj asks
      exact ⟨_, g.call_handles call asker now, fun refused => by simp [act, refused]⟩
  | disconnect leaver => cases asks
  | turn => cases asks
  | sweep config now => cases asks

/-- An act replies once at most. -/
theorem act_replies (g : Gateway) (act : Act) : (g.act act).2.length ≤ 1 := by
  cases act with
  | http r asker now =>
      rw [act, List.length_map]
      exact Option.length_toList_le
  | call call asker now =>
      rw [act, List.length_map]
      exact Option.length_toList_le
  | disconnect leaver => exact Nat.zero_le _
  | turn =>
      unfold act
      cases g.origin.turn with
      | none => exact Nat.zero_le _
      | some result => exact Option.length_toList_le
  | sweep config now => exact Nat.zero_le _

theorem countP_silent {replies : List (Nat × Reply)} (silent : ∀ reply, (request, reply) ∉ replies) :
    replies.countP (·.1 = request) = 0 := by
  refine List.countP_eq_zero.mpr fun ⟨asker, reply⟩ member own => ?_
  obtain rfl : asker = request := by simpa using own
  exact silent reply member

/-! ### Runs -/

/-- Before it is made, nothing knows the request. -/
theorem run_unasked {acts : List Act} (empty : g.origin.streams = [])
    (alone : g.origin.clients = []) (unasked : ∀ act ∈ acts, act.asks ≠ some request) :
    (g.run acts).origin.Idle request ∧
      (∀ client ∈ (g.run acts).origin.clients, client.request ≠ request) ∧
      ∀ reply, (request, reply) ∉ g.replies acts := by
  induction acts using List.reverseRecOn with
  | nil =>
      refine ⟨?_, ?_, nofun⟩
      · intro i s found
        have listed : g.origin.streams[i]? = some s := found
        rw [empty] at listed
        cases listed
      · intro client member
        have listed : client ∈ g.origin.clients := member
        rw [alone] at listed
        cases listed
  | append_singleton acts act ih =>
      obtain ⟨idle, unknown, silent⟩ := ih fun earlier member =>
        unasked earlier (List.mem_append_left _ member)
      have follows := (g.run acts).act_follows act (unasked act (by simp))
      obtain ⟨idle', silent'⟩ := idle.follows follows
      rw [run_snoc, replies_snoc]
      refine ⟨idle', fun client member own => ?_, fun reply member => ?_⟩
      · cases follows with
        | unanswered evolves clients known _ =>
            exact unknown client (known client member own) own
        | delivered client' found delivery streams clients replied =>
            exact clients client member own
      · rcases List.mem_append.mp member with early | now
        · exact silent reply early
        · exact silent' reply now

/-- A request that is made once is known to one stream at most. While its client waits nothing has
been replied, and there is one reply at most in the end. -/
theorem run_asked_once {acts : List Act} (empty : g.origin.streams = [])
    (alone : g.origin.clients = []) (once : acts.countP (·.asks = some request) ≤ 1) :
    ((g.run acts).origin.Idle request ∧ (g.replies acts).countP (·.1 = request) ≤ 1) ∨
      (∃ i, (g.run acts).origin.Held request i) ∧ ∀ reply, (request, reply) ∉ g.replies acts := by
  induction acts using List.reverseRecOn with
  | nil => exact .inl ⟨(run_unasked empty alone (List.forall_mem_nil _)).1, Nat.zero_le _⟩
  | append_singleton acts act ih =>
      have now : ((g.run acts).act act).2.countP (·.1 = request) ≤ 1 :=
        List.countP_le_length.trans ((g.run acts).act_replies act)
      rw [List.countP_append, List.countP_singleton] at once
      rw [run_snoc, replies_snoc, List.countP_append]
      by_cases asks : act.asks = some request
      · -- this act makes the request, so none before it has made it
        have unasked : ∀ earlier ∈ acts, earlier.asks ≠ some request := by
          have never : acts.countP (·.asks = some request) = 0 := by
            rw [if_pos (decide_eq_true asks)] at once
            omega
          simpa using List.countP_eq_zero.mp never
        obtain ⟨idle, unknown, silent⟩ := run_unasked empty alone unasked
        obtain ⟨reply?, handles, unanswered⟩ := (g.run acts).act_asked act asks
        rcases idle.asked unknown handles with ended | ⟨i, held, unheard⟩
        · rw [countP_silent silent, Nat.zero_add]
          exact .inl ⟨ended, now⟩
        · refine .inr ⟨⟨i, held⟩, ?_⟩
          rw [unanswered unheard, List.append_nil]
          exact silent
      · have follows := (g.run acts).act_follows act asks
        rcases ih (by omega) with ⟨idle, few⟩ | ⟨⟨i, held⟩, silent⟩
        · obtain ⟨idle', silent'⟩ := idle.follows follows
          rw [countP_silent silent', Nat.add_zero]
          exact .inl ⟨idle', few⟩
        · rcases held.follows follows with ended | ⟨held', silent'⟩
          · rw [countP_silent silent, Nat.zero_add]
            exact .inl ⟨ended, now⟩
          · refine .inr ⟨⟨i, held'⟩, fun reply member => ?_⟩
            rcases List.mem_append.mp member with early | late
            · exact silent reply early
            · exact silent' reply late

/-- A request that has been dismissed ends without an answer, if it ends. -/
theorem run_dismissed {acts : List Act}
    (dismissed : Within g.origin.streams request fun _ => Phase.Dismissed)
    (unasked : ∀ act ∈ acts, act.asks ≠ some request) :
    (Within (g.run acts).origin.streams request fun _ => Phase.Dismissed) ∧
      ∀ reply, (request, reply) ∈ g.replies acts → reply = .unsent := by
  induction acts generalizing g with
  | nil => exact ⟨dismissed, nofun⟩
  | cons act acts ih =>
      obtain ⟨dismissed', unsent⟩ := Origin.dismissed_follows dismissed
        (g.act_follows act (unasked act List.mem_cons_self))
      obtain ⟨after, later⟩ :=
        ih dismissed' fun act member => unasked act (List.mem_cons_of_mem _ member)
      refine ⟨after, fun reply member => ?_⟩
      rcases List.mem_append.mp member with now | rest
      · exact unsent reply now
      · exact later reply rest

/-- Where the client of a request leaves that waits, nothing was sent before, nothing is sent from
then on, and the request waits no more. -/
theorem run_gone {earlier later : List Act} (empty : g.origin.streams = [])
    (alone : g.origin.clients = [])
    (once : (earlier ++ .disconnect request :: later).countP (·.asks = some request) ≤ 1)
    (waits : ∃ s ∈ (g.run earlier).origin.streams, s.waitsOf request ≠ []) :
    (Within (g.run (earlier ++ .disconnect request :: later)).origin.streams request
        fun _ => Phase.Dismissed) ∧
      ∀ reply, (request, reply) ∈ g.replies (earlier ++ .disconnect request :: later) →
        reply = .unsent := by
  have busy : ¬ (g.run earlier).origin.Idle request := by
    intro idle
    obtain ⟨s, member, waits⟩ := waits
    exact waits (idle.not_waiting s member)
  rw [List.countP_append, List.countP_cons_of_neg (by simp [Act.asks])] at once
  have before : earlier.countP (·.asks = some request) ≤ 1 := by omega
  rcases run_asked_once empty alone before with ⟨idle, -⟩ | ⟨⟨i, held⟩, silent⟩
  · exact absurd idle busy
  · have unasked : ∀ act ∈ later, act.asks ≠ some request := by
      have asked : earlier.countP (·.asks = some request) ≠ 0 := fun never =>
        busy (run_unasked empty alone (by simpa using List.countP_eq_zero.mp never)).1
      have never : later.countP (·.asks = some request) = 0 := by omega
      simpa using List.countP_eq_zero.mp never
    have dismissed : Within ((g.run earlier).act (.disconnect request)).1.origin.streams request
        fun _ => Phase.Dismissed := held.disconnect waits
    obtain ⟨dismissed, unsent⟩ := run_dismissed dismissed unasked
    rw [run_append, replies_append]
    refine ⟨dismissed, fun reply member => ?_⟩
    rcases List.mem_append.mp member with early | rest
    · exact absurd early (silent reply)
    · exact unsent reply rest

theorem dismissed_not_waiting {streams : List Stream}
    (dismissed : Within streams request fun _ => Phase.Dismissed) :
    ∀ s ∈ streams, s.waitsOf request = [] := by
  intro s member
  obtain ⟨i, found⟩ := List.getElem?_of_mem member
  obtain ⟨p, there, rfl | ⟨stage, rfl⟩ | ⟨steps, rfl⟩⟩ := dismissed i s found
  · exact there.waiting
  · exact there.waiting
  · exact there.waiting

/-- Whoever waits, and in whatever order windows are told, clients leave and all is closed: each
wait is settled once, by the first that applies to it. A request over HTTP has one reply at most; if
its client leaves while it waits, it waits no more, and nothing is sent. -/
theorem every_request_settles_once {κ : Type} [DecidableEq κ] (label : String)
    (incidents : List (Incident κ)) :
    Registry.SettlesOnce label incidents ∧
      ∀ (config : StreamingConfig) (log : LogControl) (request : Nat) (acts : List Act),
        acts.countP (·.asks = some request) ≤ 1 →
        (replies ⟨.create config, log⟩ acts).countP (·.1 = request) ≤ 1 ∧
        ∀ earlier later, acts = earlier ++ .disconnect request :: later →
          (∃ s ∈ (run ⟨.create config, log⟩ earlier).origin.streams, s.waitsOf request ≠ []) →
            (∀ s ∈ (run ⟨.create config, log⟩ acts).origin.streams, s.waitsOf request = []) ∧
            ∀ reply, (request, reply) ∈ replies ⟨.create config, log⟩ acts → reply = .unsent := by
  refine ⟨Registry.settlesOnce label incidents, ?_⟩
  intro config log request acts once
  constructor
  · rcases @run_asked_once ⟨.create config, log⟩ _ _ rfl rfl once with ⟨-, few⟩ | ⟨-, silent⟩
    · exact few
    · rw [countP_silent silent]
      exact Nat.zero_le _
  · rintro earlier later rfl waits
    obtain ⟨dismissed, unsent⟩ := @run_gone ⟨.create config, log⟩ _ _ later rfl rfl once waits
    exact ⟨dismissed_not_waiting dismissed, unsent⟩

/-- The client of a request for the second segment leaves before that segment comes. The request
still ends, and nothing is sent. -/
theorem every_request_settles_once_of_two :
    let incidents : List (Incident Nat) :=
      [.wait (some 1) .live .empty, .abort 1, .wait none .live .empty, .close (.stopped "cam")]
    let config : StreamingConfig := ⟨4.0, 1.0, 2.0⟩
    let log : LogControl := ⟨⟨"", "", .absent, []⟩, "info", Yaml.parse?⟩
    let earlier : List Act := [.http ⟨"PUT", "/live/cam/segment/0.m4s", [], [7]⟩ 0 1,
      .http ⟨"GET", "/live/cam/segment/1.m4s", [], []⟩ 1 2]
    let later : List Act :=
      [.http ⟨"PUT", "/live/cam/segment/1.m4s", [], [8]⟩ 2 3, .turn, .turn, .turn]
    let acts := earlier ++ .disconnect 1 :: later
    Registry.SettlesOnce "cam" incidents ∧ acts.countP (·.asks = some 1) ≤ 1 ∧
    (∃ s ∈ (run ⟨.create config, log⟩ earlier).origin.streams, s.waitsOf 1 ≠ []) ∧
    (replies ⟨.create config, log⟩ acts).countP (·.1 = 1) = 1 ∧
    (1, .unsent) ∈ replies ⟨.create config, log⟩ acts := by
  intro incidents config log earlier later acts
  have once : acts.countP (·.asks = some 1) ≤ 1 := by decide
  have waits : ∃ s ∈ (run ⟨.create config, log⟩ earlier).origin.streams, s.waitsOf 1 ≠ [] := by
    have full : (run ⟨.create config, log⟩ earlier).origin.streams.any fun s =>
        !(s.waitsOf 1).isEmpty := by decide +kernel
    obtain ⟨s, member, full⟩ := List.any_eq_true.mp full
    refine ⟨s, member, ?_⟩
    simpa using full
  obtain ⟨settles, runs⟩ := every_request_settles_once "cam" incidents
  obtain ⟨few, gone⟩ := runs config log 1 acts once
  obtain ⟨-, unsent⟩ := gone earlier later rfl waits
  have ended : 0 < (replies ⟨.create config, log⟩ acts).countP (·.1 = 1) := by decide +kernel
  refine ⟨settles, once, waits, Nat.le_antisymm few ended, ?_⟩
  obtain ⟨⟨asker, reply⟩, member, own⟩ := List.countP_pos_iff.mp ended
  obtain rfl : asker = 1 := by simpa using own
  exact unsent reply member ▸ member

end Gateway

end LiveHls
