import LiveHls.Gateway
import LiveHls.Origin.Cleanup
/-! Runs of the gateway. Requests and calls come, clients leave, turns are taken and idle streams are
removed, in any order. -/
namespace LiveHls

/-- What can happen to the gateway. -/
inductive Act where
  | http (r : HttpRequest) (request : Nat) (now : Int)
  | call (call : Call) (request : Nat) (now : Int)
  | disconnect (request : Nat)
  | turn
  /-- Streams that have been idle for too long are removed. -/
  | sweep (config : CleanupConfig) (now : Int)

/-- The number of the request that is made. -/
def Act.asks : Act → Option Nat
  | .http _ request _ => some request
  | .call _ request _ => some request
  | _ => none

namespace Gateway

/-- The gateway after an act, and what it has replied, to which request. -/
def act (g : Gateway) : Act → Gateway × List (Nat × Reply)
  | .http r request now =>
      let (g, _, reply?) := g.http r request now
      (g, reply?.toList.map (request, ·))
  | .call call request now =>
      let (g, _, reply?) := g.call call request now
      (g, reply?.toList.map (request, ·))
  | .disconnect request => ({ g with origin := (g.origin.disconnect request).1 }, [])
  | .turn =>
      match g.origin.turn with
      | none => (g, [])
      | some (o, _, reply?) => ({ g with origin := o }, reply?.toList)
  | .sweep config now => ({ g with origin := (Cleanup.removeIdle config g.origin now).1 }, [])

def run (g : Gateway) (acts : List Act) : Gateway := acts.foldl (fun g act => (g.act act).1) g

/-- All replies of a run, in order. -/
def replies (g : Gateway) : List Act → List (Nat × Reply)
  | [] => []
  | act :: acts => (g.act act).2 ++ (g.act act).1.replies acts

theorem run_append (g : Gateway) (acts later : List Act) :
    g.run (acts ++ later) = (g.run acts).run later := List.foldl_append

theorem run_snoc (g : Gateway) (acts : List Act) (last : Act) :
    g.run (acts ++ [last]) = ((g.run acts).act last).1 := g.run_append acts [last]

theorem replies_append (g : Gateway) (acts later : List Act) :
    g.replies (acts ++ later) = g.replies acts ++ (g.run acts).replies later := by
  induction acts generalizing g with
  | nil => rfl
  | cons act acts ih =>
      rw [List.cons_append, replies, replies, ih, List.append_assoc]
      rfl

theorem replies_snoc (g : Gateway) (acts : List Act) (last : Act) :
    g.replies (acts ++ [last]) = g.replies acts ++ ((g.run acts).act last).2 := by
  rw [replies_append, replies, replies, List.append_nil]

end Gateway

end LiveHls
