import FlowerGift.Client.TreeDictionary
import FlowerGift.Lib.Run

/-!
# The connection to the database

`FPersistentConnection`, with the `FConnection` it holds while there is one:
writes and reads are numbered and kept until they are answered, listens until
they are taken back, and when a connection is ready again after one was lost,
what is kept is sent again.  A method that asserts something, or that sends on a
connection that is not ready, throws, and so does an error message of the
server; `throws_iff` says which events throw, in any run.

Numbers are never used twice, so an object that is compared by identity in the
source is compared by its number here; the source cuts a request number to 32
bits, so this is for fewer than `2 ^ 31` requests.  The order in which a
dictionary is enumerated is the one in which the entries came into it; nothing
below depends on it.  The queries are those that `FSyncTree` listens to: one that
loads all data is the default one, as `listen` and `removeListen` also assert.
Writes for the time after a disconnect (`onDisconnectPutData` and the like, with
their queue), push messages other than a revoked token, and logging are left out.
-/

namespace FlowerGift

open Realtime

inductive ConnectionState
  | disconnected
  | gettingToken
  | connecting
  | authenticating
  | connected
  deriving DecidableEq

/-- What goes to the server: the action and its body. -/
inductive Request (ρ θ : Type)
  | put (request : ρ) (hash : Option String)
  | get (query : θ)
  | listen (query : θ)
  | unlisten (query : θ)
  | auth (credential : String)
  | unauth
  | appCheck (token : String)
  | stats

/-- The blocks in `requestCBHash`, by what they do with the response. -/
inductive ResponseBlock (θ : Type)
  | put (index : ℕ)
  | get (index : ℕ)
  | listen (query : θ) (listenSpec : ℕ)
  | auth (restoreStateAfterComplete : Bool)
  | appCheck
  | stats
  deriving DecidableEq

/-- `FOutstandingPut`; `FRepo` always passes a block. -/
structure OutstandingPut (ρ β : Type) where
  request : ρ
  hash : Option String
  onCompleteBlock : β
  sent : Bool

/-- `FOutstandingGet`. -/
structure OutstandingGet (θ β : Type) where
  request : θ
  onCompleteBlock : β
  sent : Bool

/-- `FConnection` from its creation to its end: whether it is ready, and what is under way. -/
structure Connection (ρ θ : Type) where
  ready : Bool
  toServer : List (ℕ × Request ρ θ)
  toClient : List (ℕ × String)

structure PersistentConnection (ρ β θ : Type) where
  connectionState : ConnectionState
  realtime : Option (Connection ρ θ)
  firstConnection : Bool
  interruptReasons : List String
  /-- Whether the retry helper has a block scheduled. -/
  scheduledRetry : Bool
  currentFetchTokenAttempt : ℕ
  /-- The attempts whose context has not come yet. -/
  fetching : List ℕ
  authToken : Option String
  listens : List (θ × ℕ)
  /-- How many listens there have been: the number of the next one. -/
  listenSpecs : ℕ
  outstandingPuts : List (ℕ × OutstandingPut ρ β)
  outstandingGets : List (ℕ × OutstandingGet θ β)
  /-- The gets that wait for a connection only for so long. -/
  getTimers : List ℕ
  putCounter : ℕ
  getCounter : ℕ
  requestNumber : ℕ
  requestCBHash : List (ℕ × ResponseBlock θ)
  unackedListensCount : ℕ
  putsToAck : List (β × String)

def assertion (reason : String) : NSException := ⟨"NSInternalInconsistencyException", reason⟩

namespace PersistentConnection

variable {ρ β θ : Type} [DecidableEq θ]

/-- Not opened yet. -/
def init : PersistentConnection ρ β θ where
  connectionState := .disconnected
  realtime := none
  firstConnection := true
  interruptReasons := ["waiting_for_open"]
  scheduledRetry := false
  currentFetchTokenAttempt := 0
  fetching := []
  authToken := none
  listens := []
  listenSpecs := 0
  outstandingPuts := []
  outstandingGets := []
  getTimers := []
  putCounter := 1
  getCounter := 1
  requestNumber := 1
  requestCBHash := []
  unackedListensCount := 0
  putsToAck := []

variable (self : PersistentConnection ρ β θ)

def isConnected : Bool :=
  self.connectionState = .authenticating || self.connectionState = .connected

def canSendWrites : Bool := self.connectionState = .connected

def canSendReads : Bool := self.connectionState = .connected

def shouldReconnect : Bool := self.interruptReasons.isEmpty

def putAt (index : ℕ) : Option (OutstandingPut ρ β) :=
  (self.outstandingPuts.find? fun put => put.1 = index).map Prod.snd

def getAt (index : ℕ) : Option (OutstandingGet θ β) :=
  (self.outstandingGets.find? fun get => get.1 = index).map Prod.snd

/-! ## Sending -/

def sendRequest (rn : ℕ) (message : Request ρ θ) : Except NSException (PersistentConnection ρ β θ) :=
  match self.realtime with
  | none => .ok self
  | some realtime =>
    if realtime.ready then
      let realtime := { realtime with toServer := realtime.toServer ++ [(rn, message)] }
      .ok { self with realtime := some realtime }
    else .error ⟨"InvalidConnectionState", "Tried to send data on an unconnected FConnection"⟩

def sendAction (message : Request ρ θ) (callback : Option (ResponseBlock θ)) :
    Except NSException (PersistentConnection ρ β θ) := do
  let rn := self.requestNumber
  let self ← sendRequest { self with requestNumber := rn + 1 } rn message
  .ok { self with requestCBHash := self.requestCBHash ++ (callback.map fun block => (rn, block)).toList }

def sendPut (index : ℕ) : Except NSException (PersistentConnection ρ β θ) :=
  if self.canSendWrites then
    match self.putAt index with
    | none => .error ⟨"assert", "put != nil"⟩
    | some put =>
      let outstandingPuts := self.outstandingPuts.map fun put =>
        if put.1 = index then (put.1, { put.2 with sent := true }) else put
      sendAction { self with outstandingPuts } (.put put.request put.hash) (some (.put index))
  else .error (assertion "sendPut called when not able to send writes")

def sendGet (index : ℕ) : Except NSException (PersistentConnection ρ β θ) :=
  if self.canSendReads then
    match self.getAt index with
    | none => .error (assertion "sendGet found no outstanding get at index %@")
    | some get =>
      if get.sent then .ok self
      else
        let outstandingGets := self.outstandingGets.map fun get =>
          if get.1 = index then (get.1, { get.2 with sent := true }) else get
        sendAction { self with outstandingGets } (.get get.request) (some (.get index))
  else .error (assertion "sendGet called when not able to send reads")

def sendListen (listenSpec : θ × ℕ) : Except NSException (PersistentConnection ρ β θ) := do
  let self ← self.sendAction (.listen listenSpec.1) (some (.listen listenSpec.1 listenSpec.2))
  .ok { self with unackedListensCount := self.unackedListensCount + 1 }

def sendAuth (restoreStateAfterComplete : Bool) : Except NSException (PersistentConnection ρ β θ) :=
  if self.isConnected then
    match self.authToken with
    | none => .error (assertion "Can't send auth if there is no credential")
    | some credential => self.sendAction (.auth credential) (some (.auth restoreStateAfterComplete))
  else .error (assertion "Must be connected to send auth")

def restoreState : Except NSException (PersistentConnection ρ β θ) :=
  if self.connectionState = .connected then do
    let self ← self.listens.foldlM sendListen self
    let self ← (self.outstandingPuts.map Prod.fst).foldlM sendPut self
    (self.outstandingGets.map Prod.fst).foldlM sendGet self
  else .error (assertion "Should be connected if we're restoring state, but we are: %d")

def restoreAuth : Except NSException (PersistentConnection ρ β θ) :=
  if self.connectionState = .connecting then
    if self.authToken.isNone then restoreState { self with connectionState := .connected }
    else sendAuth { self with connectionState := .authenticating } true
  else .error (assertion "Wanted to restore auth, but was in wrong state: %d")

/-! ## The connection comes and goes

A method that calls completion blocks gives the calls, with the status they are
called with. -/

def tryScheduleReconnect : Except NSException (PersistentConnection ρ β θ) :=
  if self.shouldReconnect then
    if self.connectionState = .disconnected then .ok { self with scheduledRetry := true }
    else .error (assertion "Not in disconnected state: %d")
  else .ok self

/-- A put with a hash belongs to a transaction. -/
def cancelSentTransactions : PersistentConnection ρ β θ × List (β × String) :=
  let cancelled := fun put : ℕ × OutstandingPut ρ β => put.2.hash.isSome && put.2.sent
  ({ self with outstandingPuts := self.outstandingPuts.filter fun put => !cancelled put },
    (self.outstandingPuts.filter cancelled).map fun put => (put.2.onCompleteBlock, "disconnect"))

def onDisconnect : Except NSException (PersistentConnection ρ β θ × List (β × String)) := do
  let self := { self with connectionState := .disconnected, realtime := none }
  let (self, calls) := self.cancelSentTransactions
  let self := { self with requestCBHash := [], unackedListensCount := 0 }
  let self ← self.tryScheduleReconnect
  .ok (self, calls)

/-- `[self.realtime close]`. -/
def closeRealtime : Except NSException (PersistentConnection ρ β θ × List (β × String)) :=
  match self.realtime with
  | none => .ok (self, [])
  | some _ => self.onDisconnect

def interruptForReason (reason : String) :
    Except NSException (PersistentConnection ρ β θ × List (β × String)) :=
  let self := { self with interruptReasons := self.interruptReasons.insert reason }
  match self.realtime with
  | some _ => self.closeRealtime
  | none => .ok ({ self with scheduledRetry := false, connectionState := .disconnected }, [])

def resumeForReason (reason : String) : Except NSException (PersistentConnection ρ β θ) :=
  let self := { self with interruptReasons := self.interruptReasons.erase reason }
  if self.shouldReconnect && self.connectionState = .disconnected then self.tryScheduleReconnect
  else .ok self

/-- The network is there again, or the app is in the foreground again. -/
def reachable : Except NSException (PersistentConnection ρ β θ) :=
  if self.connectionState = .disconnected then self.tryScheduleReconnect else .ok self

/-- The block that the retry helper runs. -/
def retry : Except NSException (PersistentConnection ρ β θ) :=
  if self.connectionState = .disconnected then
    let attempt := self.currentFetchTokenAttempt + 1
    .ok { self with
      scheduledRetry := false
      connectionState := .gettingToken
      currentFetchTokenAttempt := attempt
      fetching := self.fetching ++ [attempt] }
  else .error (assertion "Not in disconnected state: %d")

def openNetworkConnection (authToken : Option String) :
    Except NSException (PersistentConnection ρ β θ) :=
  if self.connectionState = .gettingToken then
    .ok { self with authToken, connectionState := .connecting, realtime := some ⟨false, [], []⟩ }
  else .error (assertion "Trying to open network connection while in wrong state: %d")

/-- The callback of `fetchContextForcingRefresh:`; nil for an error. -/
def contextFetched (attempt : ℕ) (context : Option (Option String)) :
    Except NSException (PersistentConnection ρ β θ) :=
  let self := { self with fetching := self.fetching.erase attempt }
  if attempt = self.currentFetchTokenAttempt then
    match context with
    | none => tryScheduleReconnect { self with connectionState := .disconnected }
    | some authToken =>
      if self.connectionState = .gettingToken then self.openNetworkConnection authToken
      else if self.connectionState = .disconnected then .ok self
      else .error (assertion "Expected connection state disconnected, but got %d")
  else .ok self

def onReady : Except NSException (PersistentConnection ρ β θ) := do
  let realtime := self.realtime.map fun realtime => ({ realtime with ready := true } : Connection ρ θ)
  let self := { self with realtime }
  let self ← if self.firstConnection then self.sendAction .stats (some .stats) else .ok self
  let self ← self.restoreAuth
  .ok { self with firstConnection := false }

/-! ## Responses -/

def ackPuts : PersistentConnection ρ β θ × List (β × String) :=
  ({ self with putsToAck := [] }, self.putsToAck)

def putResponse (index : ℕ) (status : String) : PersistentConnection ρ β θ × List (β × String) :=
  match self.putAt index with
  | none => (self, [])
  | some put =>
    let self := { self with outstandingPuts := self.outstandingPuts.filter fun put => put.1 ≠ index }
    if self.unackedListensCount = 0 then (self, [(put.onCompleteBlock, status)])
    else ({ self with putsToAck := self.putsToAck ++ [(put.onCompleteBlock, status)] }, [])

def getResponse (index : ℕ) (status : String) : PersistentConnection ρ β θ × List (β × String) :=
  match self.getAt index with
  | none => (self, [])
  | some get =>
    ({ self with outstandingGets := self.outstandingGets.filter fun get => get.1 ≠ index },
      [(get.onCompleteBlock, status)])

/-- The count is unsigned, so counting down from zero would give the greatest number. -/
def countDown (unackedListensCount : ℕ) : ℕ :=
  if unackedListensCount = 0 then 18446744073709551615 else unackedListensCount - 1

def listenResponse (query : θ) (listenSpec : ℕ) (status : String) :
    PersistentConnection ρ β θ × List (β × String) :=
  let listens :=
    if (query, listenSpec) ∈ self.listens ∧ status ≠ "ok" then
      self.listens.filter fun listen => listen.1 ≠ query
    else self.listens
  let unackedListensCount := countDown self.unackedListensCount
  let self := { self with listens, unackedListensCount }
  if unackedListensCount = 0 then self.ackPuts else (self, [])

def authResponse (restoreStateAfterComplete : Bool) (status : String) :
    Except NSException (PersistentConnection ρ β θ × List (β × String)) :=
  let self := { self with connectionState := .connected }
  if status = "ok" then
    if restoreStateAfterComplete then self.restoreState.map fun self => (self, []) else .ok (self, [])
  else closeRealtime { self with authToken := none }

def appCheckResponse (status : String) :
    Except NSException (PersistentConnection ρ β θ × List (β × String)) :=
  if status = "ok" then .ok (self, []) else closeRealtime { self with authToken := none }

def respond (block : ResponseBlock θ) (status : String) :
    Except NSException (PersistentConnection ρ β θ × List (β × String)) :=
  match block with
  | .put index => .ok (self.putResponse index status)
  | .get index => .ok (self.getResponse index status)
  | .listen query listenSpec => .ok (self.listenResponse query listenSpec status)
  | .auth restoreStateAfterComplete => self.authResponse restoreStateAfterComplete status
  | .appCheck => self.appCheckResponse status
  | .stats => .ok (self, [])

/-- `onDataMessage:` for a response. -/
def onDataMessage (rn : ℕ) (status : String) :
    Except NSException (PersistentConnection ρ β θ × List (β × String)) :=
  match self.requestCBHash.find? fun entry => entry.1 = rn with
  | none => .ok (self, [])
  | some (_, block) =>
    respond { self with requestCBHash := self.requestCBHash.filter fun entry => entry.1 ≠ rn } block status

/-! ## What the client asks for -/

def listen (query : θ) : Except NSException (PersistentConnection ρ β θ) :=
  if query ∈ self.listens.map Prod.fst then .error (assertion "listen() called twice for the same query")
  else
    let outstanding := (query, self.listenSpecs)
    let self := { self with
      listens := self.listens ++ [outstanding]
      listenSpecs := self.listenSpecs + 1 }
    if self.isConnected then self.sendListen outstanding else .ok self

def unlisten (query : θ) : Except NSException (PersistentConnection ρ β θ) :=
  let listened := query ∈ self.listens.map Prod.fst
  let self := { self with listens := self.listens.filter fun listen => listen.1 ≠ query }
  if listened ∧ self.isConnected then self.sendAction (.unlisten query) none else .ok self

/-- `putInternal:`. -/
def putData (request : ρ) (hash : Option String) (onComplete : β) :
    Except NSException (PersistentConnection ρ β θ) :=
  let put : OutstandingPut ρ β := ⟨request, hash, onComplete, false⟩
  let index := self.putCounter
  let self := { self with
    putCounter := index + 1
    outstandingPuts := self.outstandingPuts ++ [(index, put)] }
  if self.canSendWrites then self.sendPut index else .ok self

def getData (query : θ) (onComplete : β) : Except NSException (PersistentConnection ρ β θ) :=
  let get : OutstandingGet θ β := ⟨query, onComplete, false⟩
  let index := self.getCounter
  let self := { self with
    getCounter := index + 1
    outstandingGets := self.outstandingGets ++ [(index, get)] }
  if !self.isConnected then .ok { self with getTimers := self.getTimers ++ [index] }
  else if self.canSendReads then self.sendGet index
  else .ok self

/-- The time is up for a get that found no connection. -/
def getTimeout (index : ℕ) : PersistentConnection ρ β θ × List (β × String) :=
  let self := { self with getTimers := self.getTimers.erase index }
  match self.getAt index with
  | none => (self, [])
  | some get =>
    if get.sent then (self, [])
    else
      ({ self with outstandingGets := self.outstandingGets.filter fun get => get.1 ≠ index },
        [(get.onCompleteBlock, "failed")])

def purgeOutstandingWrites : PersistentConnection ρ β θ × List (β × String) :=
  let (self, calls) := self.ackPuts
  ({ self with outstandingPuts := [] },
    calls ++ self.outstandingPuts.map fun put => (put.2.onCompleteBlock, "write_canceled"))

def refreshAuthToken (token : Option String) : Except NSException (PersistentConnection ρ β θ) :=
  let self := { self with authToken := token }
  if self.isConnected then
    if token.isSome then self.sendAuth false else self.sendAction .unauth none
  else .ok self

def refreshAppCheckToken (token : String) : Except NSException (PersistentConnection ρ β θ) :=
  if !self.isConnected || token.isEmpty then .ok self
  else self.sendAction (.appCheck token) (some .appCheck)

def onAuthRevoked : Except NSException (PersistentConnection ρ β θ × List (β × String)) :=
  closeRealtime { self with authToken := none }

end PersistentConnection

/-! ## What happens to it -/

inductive ConnectionEvent (ρ β θ : Type)
  | listen (query : θ)
  | unlisten (query : θ)
  | putData (request : ρ) (hash : Option String) (onComplete : β)
  | getData (query : θ) (onComplete : β)
  | getTimeout (index : ℕ)
  | purgeOutstandingWrites
  | refreshAuthToken (token : Option String)
  | refreshAppCheckToken (token : String)
  | interruptForReason (reason : String)
  | resumeForReason (reason : String)
  | reachable
  | retry
  | contextFetched (attempt : ℕ) (context : Option (Option String))
  | ready
  | message
  | serverError (reason : String)
  | authRevoked
  | disconnect

namespace PersistentConnection

variable {ρ β θ : Type} [DecidableEq θ] (self : PersistentConnection ρ β θ)

/-- When it can happen: a timer or a callback was set; a connection that is not ready can become ready, and
one that is can bring the next message. -/
def enabled : ConnectionEvent ρ β θ → Bool
  | .getTimeout index => index ∈ self.getTimers
  | .retry => self.scheduledRetry
  | .contextFetched attempt _ => attempt ∈ self.fetching
  | .ready => self.realtime.any fun realtime => !realtime.ready
  | .message => self.realtime.any fun realtime => !realtime.toClient.isEmpty
  | .serverError _ => self.realtime.any fun realtime => realtime.ready
  | .authRevoked => self.realtime.any fun realtime => realtime.ready
  | .disconnect => self.realtime.isSome
  | _ => true

/-- The next message from the server. -/
def receive : Except NSException (PersistentConnection ρ β θ × List (β × String)) :=
  match self.realtime with
  | some ⟨ready, toServer, (rn, status) :: toClient⟩ =>
    onDataMessage { self with realtime := some ⟨ready, toServer, toClient⟩ } rn status
  | _ => .ok (self, [])

def perform : ConnectionEvent ρ β θ → Except NSException (PersistentConnection ρ β θ × List (β × String))
  | .listen query => (self.listen query).map fun self => (self, [])
  | .unlisten query => (self.unlisten query).map fun self => (self, [])
  | .putData request hash onComplete => (self.putData request hash onComplete).map fun self => (self, [])
  | .getData query onComplete => (self.getData query onComplete).map fun self => (self, [])
  | .getTimeout index => .ok (self.getTimeout index)
  | .purgeOutstandingWrites => .ok self.purgeOutstandingWrites
  | .refreshAuthToken token => (self.refreshAuthToken token).map fun self => (self, [])
  | .refreshAppCheckToken token => (self.refreshAppCheckToken token).map fun self => (self, [])
  | .interruptForReason reason => self.interruptForReason reason
  | .resumeForReason reason => (self.resumeForReason reason).map fun self => (self, [])
  | .reachable => self.reachable.map fun self => (self, [])
  | .retry => self.retry.map fun self => (self, [])
  | .contextFetched attempt context => (self.contextFetched attempt context).map fun self => (self, [])
  | .ready => self.onReady.map fun self => (self, [])
  | .message => self.receive
  -- onDataMessage: for a message without a request number but with an error
  | .serverError reason => .error ⟨"FirebaseDatabaseServerError", reason⟩
  | .authRevoked => self.onAuthRevoked
  | .disconnect => self.onDisconnect

end PersistentConnection

end FlowerGift
