/-
SidechainVerifier.PauseGate — holding off new batches while guards are
held.

Whoever needs the processor takes a guard; while an active guard is held no
batch may start. The gate counts active guards and tells the backend to
pause when the first is taken and to resume when the last is dropped. It
also keeps the guards themselves, numbered in the order in which they were
taken, each of which can be dropped once.
-/

namespace SidechainVerifier

/-- What a backend is told to do with its low-priority threads. -/
inductive Signal where
  | pause
  | resume
deriving DecidableEq

/-- Whether the backend's low-priority threads are paused after a signal. -/
def Signal.isPause : Signal → Bool
  | .pause => true
  | .resume => false

/-- A guard that was taken. -/
structure Guard where
  /-- The guard holds off new batches while it is held. -/
  active : Bool
  /-- The guard has not been dropped. -/
  held : Bool
deriving DecidableEq

/-- The count of active guards, and all guards that were ever taken. -/
structure PauseGate where
  count : Nat
  guards : List Guard
deriving DecidableEq

namespace PauseGate

/-- No guard was taken. -/
def initial : PauseGate := ⟨0, []⟩

/-- New batches are held off. -/
def isPaused (g : PauseGate) : Bool := g.count > 0

/-- A batch may start. -/
def grantsSlot (g : PauseGate) : Bool := g.count = 0

/-- Takes a guard, which is active if a pause is requested. -/
def take (g : PauseGate) (requested : Bool) : Option Signal × PauseGate :=
  let guards := g.guards ++ [⟨requested, true⟩]
  if requested then (if g.count = 0 then some .pause else none, ⟨g.count + 1, guards⟩)
  else (none, ⟨g.count, guards⟩)

/-- Drops a guard by its number; `none` if there is no such guard or it was dropped before. -/
def drop? (g : PauseGate) (number : Nat) : Option (Option Signal × PauseGate) :=
  match g.guards[number]? with
  | none => none
  | some guard =>
    if guard.held then
      let guards := g.guards.set number { guard with held := false }
      if guard.active then
        let count := g.count - 1
        some (if count = 0 then some .resume else none, ⟨count, guards⟩)
      else some (none, ⟨g.count, guards⟩)
    else none

end PauseGate

end SidechainVerifier
