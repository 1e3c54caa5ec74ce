/-
SidechainVerifier.Driver — the periodic driver and its cancellation.

A driver runs cycles, one after each wake-up, until it is cancelled. It
looks at its token at the top of every round and after every wait, so a
cycle in progress always completes. What it publishes is the state of its
cycle and, at its end, that it has stopped. A `Service` is a verifier with
the driver that works on it, beside whoever else works on it. `TokenTable`
holds cancellation tokens whose copies share one flag.
-/
import SidechainVerifier.Event

namespace SidechainVerifier

/-! ## Cancellation -/

/-- Cancellation flags, and the tokens that refer to them by number. -/
structure TokenTable where
  flags : List Bool
  tokens : List Nat
deriving DecidableEq

namespace TokenTable

/-- One token, not cancelled. -/
def initial : TokenTable := ⟨[false], [0]⟩

/-- Adds a token with a flag of its own. -/
def addFresh (t : TokenTable) : TokenTable :=
  ⟨t.flags ++ [false], t.tokens ++ [t.flags.length]⟩

/-- Adds a copy of a token, which shares its flag. -/
def addClone (t : TokenTable) (token : Nat) : TokenTable :=
  match t.tokens[token]? with
  | some flag => { t with tokens := t.tokens ++ [flag] }
  | none => t

/-- Whether a token is cancelled. -/
def isCancelled (t : TokenTable) (token : Nat) : Bool :=
  ((t.tokens[token]?).bind fun flag => t.flags[flag]?).getD false

/-- Cancels a token and all its copies. -/
def cancel (t : TokenTable) (token : Nat) : TokenTable :=
  match t.tokens[token]? with
  | some flag => { t with flags := t.flags.set flag true }
  | none => t

end TokenTable

/-! ## The driver -/

/-- Where a driver stands in its loop. -/
inductive DriverPlace where
  /-- At the top of a round. -/
  | top
  /-- Past the top, with its cycle still to start. -/
  | entering
  /-- In its cycle. -/
  | cycling
  /-- Waiting for the next wake-up. -/
  | waiting
  /-- Past the end of the loop. -/
  | stopped
  /-- Ended by a call that was torn down. -/
  | torn
deriving DecidableEq

/-- A driver: its token, what it last published, and where it stands. -/
structure Driver where
  cancelled : Bool
  state : DriverState
  place : DriverPlace
deriving DecidableEq

namespace Driver

/-- A driver that has just been started. -/
def initial : Driver := ⟨false, .idle, .top⟩

/-- Cancels the driver's token. -/
def cancel (d : Driver) : Driver := { d with cancelled := true }

/-- Leaves the loop. -/
def stop (d : Driver) : Driver := { d with state := .stopped, place := .stopped }

/-- Begins a round at the top of the loop: a cancelled driver stops, any other is to start a
cycle. -/
def beginRound (d : Driver) : Driver :=
  match d.place with
  | .top => if d.cancelled then d.stop else { d with place := .entering }
  | _ => d

/-- Follows a step of the driver's own cycle. -/
def follow (d : Driver) (published : List DriverState) (progress : Progress) : Driver :=
  let d := { d with state := published.getLast?.getD d.state }
  match progress with
  | .awaiting _ => { d with place := .cycling }
  | .finished _ => { d with place := .waiting }
  | .torn => { d with place := .torn }

/-- Ends a wait, by the time being up or by cancellation: a cancelled driver stops. -/
def wake (d : Driver) : Driver :=
  match d.place with
  | .waiting => if d.cancelled then d.stop else { d with place := .top }
  | _ => d

/-- Whether the driver has ended. -/
def hasEnded (d : Driver) : Bool := d.place = .stopped || d.place = .torn

/-- The driver once its owner has waited for its end: one that was torn counts as stopped. -/
def join (d : Driver) : Driver :=
  match d.place with
  | .torn => { d with state := .stopped }
  | _ => d

end Driver

/-! ## A verifier and its driver -/

/-- A verifier, and the driver that works on it, if one was started. -/
structure Service where
  verifier : Verifier
  driver : Option Driver

/-- Something that happens to a service. -/
inductive ServiceEvent where
  /-- Something happens to the verifier, but not the start of the driver's cycle. -/
  | verifier (event : Event)
  /-- A driver is started, in place of one that has ended. -/
  | startDriver
  /-- The driver's token is cancelled. -/
  | cancel
  /-- The driver is at the top of its loop. -/
  | beginRound
  /-- The driver starts its cycle. -/
  | startCycle (now : Instant)
  /-- The driver's wait ends. -/
  | wake
  /-- The driver's owner has waited for its end. -/
  | join

namespace Service

/-- A verifier without a driver. -/
def ofVerifier (v : Verifier) : Service := ⟨v, none⟩

/-- Lets something happen to the driver, if there is one. -/
def onDriver? (s : Service) (f : Driver → Driver) : Option (Response × Service) :=
  s.driver.map fun d => (.done, { s with driver := some (f d) })

/-- The driver after a response of the verifier, if it is in its cycle: then the cycle in progress
is its own. -/
def attend (d : Driver) : Response → Driver
  | .stepped published progress => if d.place = .cycling then d.follow published progress else d
  | _ => d

/-- The response to something that happens to the verifier, and the service after it. -/
def handleVerifier? (s : Service) (event : Event) : Option (Response × Service) :=
  (s.verifier.handle? event).map fun (response, v) =>
    (response, ⟨v, s.driver.map fun d => attend d response⟩)

/-- The response to an event, and the service after it; `none` if the event cannot happen. -/
def handle? (s : Service) : ServiceEvent → Option (Response × Service)
  | .verifier event => s.handleVerifier? event
  | .startDriver =>
    if s.driver.all Driver.hasEnded then some (.done, { s with driver := some .initial }) else none
  | .cancel => s.onDriver? .cancel
  | .beginRound => s.onDriver? .beginRound
  | .startCycle now =>
    match s.driver with
    | some d =>
      if d.place = .entering then
        { s with driver := some { d with place := .cycling } }.handleVerifier? (.start false now)
      else none
    | none => none
  | .wake => s.onDriver? .wake
  | .join =>
    match s.driver with
    | some d => if d.hasEnded then some (.done, { s with driver := some d.join }) else none
    | none => none

/-- The responses to a sequence of events, and the service after it. -/
def run? (s : Service) : List ServiceEvent → Option (List Response × Service)
  | [] => some ([], s)
  | event :: rest => do
    let (response, s) ← s.handle? event
    let (responses, s) ← s.run? rest
    return (response :: responses, s)

end Service

end SidechainVerifier
