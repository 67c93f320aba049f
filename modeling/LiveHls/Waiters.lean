import LiveHls.WaitTarget
/-! Requests that wait until the window reaches some state. Each change of the window is told to
all of them; those whose target holds are released with that very window. -/
namespace LiveHls

/-- A window in which the target holds, or why it never will. -/
abbrev WaitOutcome := Except Fault Window

structure Waiter (τ : Type) where
  /-- Who waits. -/
  tag : τ
  target : WaitTarget
  /-- The key of the target in the window it was last judged against. -/
  key : String

structure Waiters (τ : Type) where
  /-- The name that log lines carry. -/
  label : String
  /-- In order of registration. -/
  parked : List (Waiter τ)
  closedWith : Option Fault

/-- What an operation releases, in order, and what it logs. -/
structure Effects (τ : Type) where
  released : List (τ × WaitOutcome)
  log : Log

namespace Waiters

variable {τ : Type}

def start (label : String) : Waiters τ := ⟨label, [], none⟩

def size (ws : Waiters τ) : Nat := ws.parked.length

/-- Waits for a target, starting with the given window. The outcome is there at once if the
target already holds or is rejected, if the client has left, or if nothing is waited for any
more; else the request is parked. -/
def wait (ws : Waiters τ) (tag : τ) (target : WaitTarget) (w : Window) (clientLeft : Bool) :
    Waiters τ × Option WaitOutcome × Log :=
  match ws.closedWith with
  | some fault => (ws, some (.error fault), [])
  | none =>
      if clientLeft then (ws, some (.error .abandoned), [])
      else
        match target.evaluate w none with
        | .ready => (ws, some (.ok w), [])
        | .rejected fault => (ws, some (.error fault), [])
        | .pending =>
            let waiter : Waiter τ := ⟨tag, target, target.key w⟩
            let ws := { ws with parked := ws.parked ++ [waiter] }
            (ws, none,
              [logDebug s!"[{ws.label}] Parked waiter {waiter.key} ({ws.size} pending)"])

/-- Judges the waiters one after the other against a window: those left, those released. -/
def judge (label : String) (w : Window) (event : Production) :
    List (Waiter τ) → List (Waiter τ) × Effects τ
  | [] => ([], ⟨[], []⟩)
  | waiter :: rest =>
      let (left, effects) := judge label w event rest
      match waiter.target.evaluate w (some event) with
      | .pending => ({ waiter with key := waiter.target.key w } :: left, effects)
      | .ready => (left, { effects with released := (waiter.tag, .ok w) :: effects.released })
      | .rejected fault =>
          (left,
            { released := (waiter.tag, .error fault) :: effects.released
              log := logDebug s!"[{label}] Waiter {waiter.key} rejected: {fault.message}"
                :: effects.log })

def broadcast (ws : Waiters τ) (w : Window) (event : Production) : Waiters τ × Effects τ :=
  let (left, effects) := judge ws.label w event ws.parked
  ({ ws with parked := left }, effects)

def abandon (ws : Waiters τ) (gone : τ → Bool) : Waiters τ × Effects τ :=
  let leaving := ws.parked.filter fun waiter => gone waiter.tag
  ({ ws with parked := ws.parked.filter fun waiter => !gone waiter.tag },
    { released := leaving.map fun waiter => (waiter.tag, .error .abandoned)
      log := leaving.map fun waiter =>
        logDebug s!"[{ws.label}] Waiter {waiter.key} abandoned by client" })

def close (ws : Waiters τ) (fault : Fault) : Waiters τ × Effects τ :=
  ({ ws with parked := [], closedWith := some fault },
    { released := ws.parked.map fun waiter => (waiter.tag, .error fault), log := [] })

def tally (key : String) : List (String × Nat) → List (String × Nat)
  | [] => [(key, 1)]
  | (k, n) :: rest => if k = key then (k, n + 1) :: rest else (k, n) :: tally key rest

/-- How many wait for each key, in the order in which the keys first occur. -/
def pendingByKey (ws : Waiters τ) : List (String × Nat) :=
  ws.parked.foldl (fun counts waiter => tally waiter.key counts) []

end Waiters

end LiveHls
