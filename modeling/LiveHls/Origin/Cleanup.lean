import LiveHls.Origin
/-! Removal of streams whose producers have been silent for too long, on demand and on a timer.
All times are in milliseconds. -/
namespace LiveHls

structure CleanupConfig where
  enabled : Bool
  idleTimeout : Int
  interval : Int

/-- An armed timer and when it fires next. -/
structure Timer where
  id : Nat
  due : Int
  deriving DecidableEq, Repr

/-- The timers of the cleanup, and the one that it remembers. -/
structure Cleanup where
  config : CleanupConfig
  /-- In order of arming. -/
  armed : List Timer
  remembered : Option Nat
  nextId : Nat

namespace Cleanup

def create (config : CleanupConfig) : Cleanup := ⟨config, [], none, 0⟩

def period (c : Cleanup) : Nat := max 1 c.config.interval.toNat

def minutes (millis : Int) : String := Decimal.text (Float.ofInt millis / 60000.0)

def start (c : Cleanup) (now : Int) : Cleanup × Log :=
  if c.config.enabled then
    let timer : Timer := ⟨c.nextId, now + c.period⟩
    ({ c with armed := c.armed ++ [timer], remembered := some c.nextId, nextId := c.nextId + 1 },
      [logInfo (s!"Starting idle stream cleanup. Idle timeout: {minutes c.config.idleTimeout}"
        ++ s!" minutes, Interval: {minutes c.config.interval} minutes")])
  else (c, [logInfo "Idle stream cleanup is disabled"])

def stop (c : Cleanup) : Cleanup × Log :=
  match c.remembered with
  | some id =>
      ({ c with armed := c.armed.filter (·.id ≠ id), remembered := none },
        [logInfo "Idle stream cleanup stopped"])
  | none => (c, [])

/-- The timer that is due first, at the given time at the latest. -/
def due? (now : Int) : List Timer → Option Timer
  | [] => none
  | timer :: rest =>
      match due? now rest with
      | some other => if timer.due ≤ other.due then some timer else some other
      | none => if timer.due ≤ now then some timer else none

def rearm (period : Nat) (timer : Timer) (timers : List Timer) : List Timer :=
  timers.map fun t => if t.id = timer.id then { t with due := t.due + period } else t

/-- Removes the streams of a list that have been idle since before `cutoff`. -/
def removeFrom (now cutoff : Int) : List (String × Nat) → Origin → Origin × List String × Log
  | [], o => (o, [], [])
  | (id, i) :: rest, o =>
      match o.streams[i]? with
      | none => removeFrom now cutoff rest o
      | some s =>
          if s.lastActivity < cutoff then
            let (o, stopLog) := o.retire id i s
            let (o, removed, log) := removeFrom now cutoff rest o
            let idle := Decimal.fixed 0 (Float.ofInt (now - s.lastActivity) / 1000.0)
            (o, id :: removed, stopLog
              ++ logInfo s!"[{id}] Removed after {idle}s without producer activity" :: log)
          else removeFrom now cutoff rest o

/-- Stops and removes every stream that has been idle for longer than the timeout. -/
def removeIdle (config : CleanupConfig) (o : Origin) (now : Int) : Origin × List String × Log :=
  let (o, removed, log) := removeFrom now (now - config.idleTimeout) o.names o
  (o, removed,
    if removed.isEmpty then log ++ [logDebug "Cleanup complete. No idle streams."] else log)

/-- At most so many firings up to a time, the earliest first, each at its own time. -/
def fireWithin : Nat → Cleanup → Origin → Int → Cleanup × Origin × Log
  | 0, c, o, _ => (c, o, [])
  | n + 1, c, o, now =>
      match due? now c.armed with
      | none => (c, o, [])
      | some timer =>
          let (o, _, log) := removeIdle c.config o timer.due
          let c := { c with armed := rearm c.period timer c.armed }
          let (c, o, rest) := fireWithin n c o now
          (c, o, log ++ rest)

/-- Fires the timers that are due by a time. -/
def advance (c : Cleanup) (o : Origin) (start now : Int) : Cleanup × Origin × Log :=
  fireWithin (c.armed.length * ((now - start).toNat / c.period + 1)) c o now

end Cleanup

end LiveHls
