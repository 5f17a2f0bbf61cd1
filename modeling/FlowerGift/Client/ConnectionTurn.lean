import FlowerGift.Client.PersistentConnection

/-!
# What an event comes to

The methods of `FPersistentConnection` assert things, send one message after the
other, and call one another.  Here is what an event throws (`thrown`), and what it
comes to when it throws nothing (`turn`): a change, the blocks that are called,
and the messages that are sent after the change (`afterSending`).
`perform_eq_turn` in the next module shows that in every run the methods do just
this.
-/

namespace FlowerGift

open Realtime

/-! ## Numbered messages -/

/-- A message and the block that waits for its response. -/
abbrev Message (ρ θ : Type) := Request ρ θ × Option (ResponseBlock θ)

/-- A message under its number. -/
structure Sent (ρ θ : Type) where
  rn : ℕ
  message : Request ρ θ
  block : Option (ResponseBlock θ)

section Messages

variable {ρ β θ : Type}

def Sent.wire (sent : Sent ρ θ) : ℕ × Request ρ θ := (sent.rn, sent.message)

def Sent.entry (sent : Sent ρ θ) : Option (ℕ × ResponseBlock θ) := sent.block.map fun block => (sent.rn, block)

/-- Messages with consecutive numbers. -/
def numbered : ℕ → List (Message ρ θ) → List (Sent ρ θ)
  | _, [] => []
  | n, what :: ws => ⟨n, what.1, what.2⟩ :: numbered (n + 1) ws

theorem numbered_append (n : ℕ) (us ws : List (Message ρ θ)) :
    numbered n (us ++ ws) = numbered n us ++ numbered (n + us.length) ws := by
  induction us generalizing n with
  | nil => rfl
  | cons what us ih =>
    rw [List.cons_append, numbered, ih, numbered, List.length_cons, List.cons_append]
    congr 3
    omega

theorem map_rn_numbered (n : ℕ) (ws : List (Message ρ θ)) :
    (numbered n ws).map Sent.rn = List.range' n ws.length := by
  induction ws generalizing n with
  | nil => rfl
  | cons what ws ih => rw [numbered, List.map_cons, ih, List.length_cons, List.range'_succ]

def ResponseBlock.isListen : ResponseBlock θ → Bool
  | .listen _ _ => true
  | _ => false

def ResponseBlock.isPut (index : ℕ) : ResponseBlock θ → Bool
  | .put index' => index' = index
  | _ => false

def ResponseBlock.isGet (index : ℕ) : ResponseBlock θ → Bool
  | .get index' => index' = index
  | _ => false

def Message.isListen (what : Message ρ θ) : Bool := what.2.any ResponseBlock.isListen

def Message.isPut (index : ℕ) (what : Message ρ θ) : Bool := what.2.any (ResponseBlock.isPut index)

def Message.isGet (index : ℕ) (what : Message ρ θ) : Bool := what.2.any (ResponseBlock.isGet index)

/-- A message that no put, get or listen is about. -/
def Message.Plain (what : Message ρ θ) : Prop :=
  what.isListen = false ∧ ∀ index, what.isPut index = false ∧ what.isGet index = false

def putWhat (put : ℕ × OutstandingPut ρ β) : Message ρ θ :=
  (.put put.2.request put.2.hash, some (.put put.1))

def getWhat (get : ℕ × OutstandingGet θ β) : Message ρ θ :=
  (.get get.2.request, some (.get get.1))

def listenWhat (listen : θ × ℕ) : Message ρ θ :=
  (.listen listen.1, some (.listen listen.1 listen.2))

def Connection.push (realtime : Connection ρ θ) (l : List (Sent ρ θ)) : Connection ρ θ :=
  { realtime with toServer := realtime.toServer ++ l.map Sent.wire }

def markPut (ws : List (Message ρ θ)) (put : ℕ × OutstandingPut ρ β) : ℕ × OutstandingPut ρ β :=
  (put.1, { put.2 with sent := put.2.sent || ws.any (Message.isPut put.1) })

def markGet (ws : List (Message ρ θ)) (get : ℕ × OutstandingGet θ β) : ℕ × OutstandingGet θ β :=
  (get.1, { get.2 with sent := get.2.sent || ws.any (Message.isGet get.1) })

theorem map_markPut_nil (puts : List (ℕ × OutstandingPut ρ β)) :
    puts.map (markPut ([] : List (Message ρ θ))) = puts := by
  conv_rhs => rw [← List.map_id puts]
  apply List.map_congr_left
  intro put _
  simp [markPut]

theorem map_markGet_nil (gets : List (ℕ × OutstandingGet θ β)) :
    gets.map (markGet ([] : List (Message ρ θ))) = gets := by
  conv_rhs => rw [← List.map_id gets]
  apply List.map_congr_left
  intro get _
  simp [markGet]

theorem markPut_append (us ws : List (Message ρ θ)) (put : ℕ × OutstandingPut ρ β) :
    markPut ws (markPut us put) = markPut (us ++ ws) put := by
  simp [markPut, Bool.or_assoc]

theorem markGet_append (us ws : List (Message ρ θ)) (get : ℕ × OutstandingGet θ β) :
    markGet ws (markGet us get) = markGet (us ++ ws) get := by
  simp [markGet, Bool.or_assoc]

end Messages

/-! ## Sending, and sending some more -/

namespace PersistentConnection

variable {ρ β θ : Type} (c : PersistentConnection ρ β θ)

/-- After these messages were sent. -/
def afterSending (ws : List (Message ρ θ)) : PersistentConnection ρ β θ :=
  { c with
    realtime := c.realtime.map fun realtime => realtime.push (numbered c.requestNumber ws)
    requestNumber := c.requestNumber + ws.length
    requestCBHash := c.requestCBHash ++ (numbered c.requestNumber ws).filterMap Sent.entry
    unackedListensCount := c.unackedListensCount + ws.countP Message.isListen
    outstandingPuts := c.outstandingPuts.map (markPut ws)
    outstandingGets := c.outstandingGets.map (markGet ws) }

@[simp] theorem afterSending_nil : c.afterSending [] = c := by
  have hrealtime : c.realtime.map (fun realtime => realtime.push (numbered c.requestNumber [])) = c.realtime := by
    cases c.realtime with
    | none => rfl
    | some realtime => simp [Connection.push, numbered]
  unfold afterSending
  rw [hrealtime, map_markPut_nil, map_markGet_nil]
  simp [numbered]

theorem afterSending_append (us ws : List (Message ρ θ)) :
    (c.afterSending us).afterSending ws = c.afterSending (us ++ ws) := by
  have hrealtime : (c.afterSending us).realtime.map
        (fun realtime => realtime.push (numbered (c.afterSending us).requestNumber ws)) =
      c.realtime.map fun realtime => realtime.push (numbered c.requestNumber (us ++ ws)) := by
    cases hr : c.realtime with
    | none => simp [afterSending, hr]
    | some realtime => simp [afterSending, hr, Connection.push, numbered_append]
  have hputs : (c.outstandingPuts.map (markPut us)).map (markPut ws) =
      c.outstandingPuts.map (markPut (us ++ ws)) := by
    rw [List.map_map]
    exact List.map_congr_left fun put _ => markPut_append us ws put
  have hgets : (c.outstandingGets.map (markGet us)).map (markGet ws) =
      c.outstandingGets.map (markGet (us ++ ws)) := by
    rw [List.map_map]
    exact List.map_congr_left fun get _ => markGet_append us ws get
  unfold afterSending at hrealtime ⊢
  simp only [hrealtime, hputs, hgets, numbered_append, List.filterMap_append, List.length_append,
    List.countP_append, List.append_assoc, Nat.add_assoc]

section Frame

variable (ws : List (Message ρ θ))

@[simp] theorem connectionState_afterSending : (c.afterSending ws).connectionState = c.connectionState := rfl

@[simp] theorem listens_afterSending : (c.afterSending ws).listens = c.listens := rfl

@[simp] theorem authToken_afterSending : (c.afterSending ws).authToken = c.authToken := rfl

@[simp] theorem putsToAck_afterSending : (c.afterSending ws).putsToAck = c.putsToAck := rfl

@[simp] theorem isConnected_afterSending : (c.afterSending ws).isConnected = c.isConnected := rfl

theorem keys_puts_afterSending :
    (c.afterSending ws).outstandingPuts.map Prod.fst = c.outstandingPuts.map Prod.fst := by
  simp [afterSending, markPut]

theorem keys_gets_afterSending :
    (c.afterSending ws).outstandingGets.map Prod.fst = c.outstandingGets.map Prod.fst := by
  simp [afterSending, markGet]

end Frame

/-- There is a connection, and it is ready. -/
def Online : Prop := ∃ toServer toClient, c.realtime = some ⟨true, toServer, toClient⟩

theorem Online.afterSending (h : c.Online) (ws : List (Message ρ θ)) : (c.afterSending ws).Online := by
  obtain ⟨toServer, toClient, hr⟩ := h
  exact ⟨toServer ++ (numbered c.requestNumber ws).map Sent.wire, toClient, by
    simp [PersistentConnection.afterSending, hr, Connection.push]⟩

/-! ## What an event comes to -/

structure Turn (ρ β θ : Type) where
  state : PersistentConnection ρ β θ
  calls : List (β × String)
  sends : List (Message ρ θ)

/-- What is sent again on a new connection. -/
def restored : List (Message ρ θ) :=
  c.listens.map listenWhat ++ c.outstandingPuts.map putWhat ++
    (c.outstandingGets.filter fun get => !get.2.sent).map getWhat

/-- What is sent as soon as a connection is ready. -/
def greeting : List (Message ρ θ) :=
  match c.authToken with
  | none => c.restored
  | some credential => [(.auth credential, some (.auth true))]

def rescheduled : PersistentConnection ρ β θ :=
  { c with scheduledRetry := c.scheduledRetry || c.shouldReconnect }

def dropped : PersistentConnection ρ β θ :=
  rescheduled { c.cancelSentTransactions.1 with
    connectionState := .disconnected
    realtime := none
    requestCBHash := []
    unackedListensCount := 0 }

/-- After the connection was lost. -/
def lost : Turn ρ β θ := ⟨c.dropped, c.cancelSentTransactions.2, []⟩

variable [DecidableEq θ]

def responded (block : ResponseBlock θ) (status : String) : Turn ρ β θ :=
  match block with
  | .put index => ⟨(c.putResponse index status).1, (c.putResponse index status).2, []⟩
  | .get index => ⟨(c.getResponse index status).1, (c.getResponse index status).2, []⟩
  | .listen query listenSpec =>
    ⟨(c.listenResponse query listenSpec status).1, (c.listenResponse query listenSpec status).2, []⟩
  | .auth restoreStateAfterComplete =>
    if status = "ok" then
      ⟨{ c with connectionState := .connected }, [], if restoreStateAfterComplete then c.restored else []⟩
    else lost { c with authToken := none }
  | .appCheck => if status = "ok" then ⟨c, [], []⟩ else lost { c with authToken := none }
  | .stats => ⟨c, [], []⟩

def received : Turn ρ β θ :=
  match c.realtime with
  | some ⟨ready, toServer, (rn, status) :: toClient⟩ =>
    let c := { c with realtime := some ⟨ready, toServer, toClient⟩ }
    match c.requestCBHash.find? fun entry => entry.1 = rn with
    | none => ⟨c, [], []⟩
    | some entry =>
      responded { c with requestCBHash := c.requestCBHash.filter fun entry => entry.1 ≠ rn } entry.2 status
  | _ => ⟨c, [], []⟩

/-- What an event throws: an error message of the server, as it is, and an assertion where a query is
listened to twice. -/
def thrown : ConnectionEvent ρ β θ → Option NSException
  | .listen query =>
    if query ∈ c.listens.map Prod.fst then some (assertion "listen() called twice for the same query") else none
  | .serverError reason => some ⟨"FirebaseDatabaseServerError", reason⟩
  | _ => none

theorem thrown_iff (event : ConnectionEvent ρ β θ) (e : NSException) :
    c.thrown event = some e ↔
      (∃ reason, event = .serverError reason ∧ e = ⟨"FirebaseDatabaseServerError", reason⟩) ∨
        ∃ query ∈ c.listens.map Prod.fst, event = .listen query ∧
          e = ⟨"NSInternalInconsistencyException", "listen() called twice for the same query"⟩ := by
  constructor
  · intro h
    cases event with
    | listen query =>
      obtain ⟨hq, he⟩ := Option.ite_none_right_eq_some.mp h
      exact Or.inr ⟨query, hq, rfl, (Option.some.inj he).symm⟩
    | serverError reason => exact Or.inl ⟨reason, rfl, (Option.some.inj h).symm⟩
    | _ => cases h
  · rintro (⟨reason, rfl, rfl⟩ | ⟨query, hq, rfl, rfl⟩)
    · rfl
    · exact if_pos hq

def turn : ConnectionEvent ρ β θ → Turn ρ β θ
  | .listen query =>
    ⟨{ c with listens := c.listens ++ [(query, c.listenSpecs)], listenSpecs := c.listenSpecs + 1 }, [],
      if c.isConnected then [listenWhat (query, c.listenSpecs)] else []⟩
  | .unlisten query =>
    ⟨{ c with listens := c.listens.filter fun listen => listen.1 ≠ query }, [],
      if query ∈ c.listens.map Prod.fst ∧ c.isConnected then [(.unlisten query, none)] else []⟩
  | .putData request hash onComplete =>
    let put := (c.putCounter, (⟨request, hash, onComplete, false⟩ : OutstandingPut ρ β))
    ⟨{ c with putCounter := c.putCounter + 1, outstandingPuts := c.outstandingPuts ++ [put] }, [],
      if c.canSendWrites then [putWhat put] else []⟩
  | .getData query onComplete =>
    let get := (c.getCounter, (⟨query, onComplete, false⟩ : OutstandingGet θ β))
    ⟨{ c with
        getCounter := c.getCounter + 1
        outstandingGets := c.outstandingGets ++ [get]
        getTimers := if c.isConnected then c.getTimers else c.getTimers ++ [c.getCounter] }, [],
      if c.canSendReads then [getWhat get] else []⟩
  | .getTimeout index => ⟨(c.getTimeout index).1, (c.getTimeout index).2, []⟩
  | .purgeOutstandingWrites => ⟨c.purgeOutstandingWrites.1, c.purgeOutstandingWrites.2, []⟩
  | .refreshAuthToken token =>
    ⟨{ c with authToken := token }, [],
      if c.isConnected then
        [match token with
          | some credential => (.auth credential, some (.auth false))
          | none => (.unauth, none)]
      else []⟩
  | .refreshAppCheckToken token =>
    ⟨c, [], if !c.isConnected || token.isEmpty then [] else [(.appCheck token, some .appCheck)]⟩
  | .interruptForReason reason =>
    let c := { c with interruptReasons := c.interruptReasons.insert reason }
    if c.realtime.isSome then c.lost
    else ⟨{ c with scheduledRetry := false, connectionState := .disconnected }, [], []⟩
  | .resumeForReason reason =>
    let c := { c with interruptReasons := c.interruptReasons.erase reason }
    ⟨if c.connectionState = .disconnected then c.rescheduled else c, [], []⟩
  | .reachable => ⟨if c.connectionState = .disconnected then c.rescheduled else c, [], []⟩
  | .retry =>
    let attempt := c.currentFetchTokenAttempt + 1
    ⟨{ c with
        scheduledRetry := false
        connectionState := .gettingToken
        currentFetchTokenAttempt := attempt
        fetching := c.fetching ++ [attempt] }, [], []⟩
  | .contextFetched attempt context =>
    let c := { c with fetching := c.fetching.erase attempt }
    if attempt = c.currentFetchTokenAttempt then
      match context with
      | none => ⟨rescheduled { c with connectionState := .disconnected }, [], []⟩
      | some authToken =>
        if c.connectionState = .gettingToken then
          ⟨{ c with authToken, connectionState := .connecting, realtime := some ⟨false, [], []⟩ }, [], []⟩
        else ⟨c, [], []⟩
    else ⟨c, [], []⟩
  | .ready =>
    let stats : List (Message ρ θ) := if c.firstConnection then [(.stats, some .stats)] else []
    let realtime := c.realtime.map fun realtime => ({ realtime with ready := true } : Connection ρ θ)
    let connectionState := if c.authToken.isNone then .connected else .authenticating
    ⟨{ c with realtime, connectionState, firstConnection := false }, [],
      stats ++ c.greeting⟩
  | .message => c.received
  | .serverError _ => ⟨c, [], []⟩
  | .authRevoked => lost { c with authToken := none }
  | .disconnect => c.lost

end PersistentConnection

/-! ## What an event leaves alone -/

/-- An event that is about the connection alone. -/
def ConnectionEvent.isLifecycle {ρ β θ : Type} : ConnectionEvent ρ β θ → Bool
  | .refreshAuthToken _ => true
  | .refreshAppCheckToken _ => true
  | .resumeForReason _ => true
  | .reachable => true
  | .retry => true
  | .contextFetched _ _ => true
  | .ready => true
  | .serverError _ => true
  | _ => false

namespace PersistentConnection

variable {ρ β θ : Type} (c : PersistentConnection ρ β θ)

/-- All but how the connection stands. -/
def core : PersistentConnection ρ β θ :=
  { c with
    connectionState := .disconnected
    realtime := none
    firstConnection := true
    interruptReasons := []
    scheduledRetry := false
    currentFetchTokenAttempt := 0
    fetching := []
    authToken := none }

theorem lost_of_core (c' : PersistentConnection ρ β θ) (h : c'.core = c.core) :
    c'.lost.state.core = c.lost.state.core ∧ c'.lost.calls = c.lost.calls := by
  have hlost : ∀ c : PersistentConnection ρ β θ,
      c.lost.state.core = { c.core.cancelSentTransactions.1 with requestCBHash := [], unackedListensCount := 0 } ∧
        c.lost.calls = c.core.cancelSentTransactions.2 := fun c => ⟨rfl, rfl⟩
  rw [(hlost c').1, (hlost c').2, h, (hlost c).1, (hlost c).2]
  exact ⟨rfl, rfl⟩

variable [DecidableEq θ]

theorem core_turn (event : ConnectionEvent ρ β θ) (h : event.isLifecycle = true) :
    (c.turn event).state.core = c.core ∧ (c.turn event).calls = [] := by
  have hreconnect : ∀ c : PersistentConnection ρ β θ,
      (if c.connectionState = .disconnected then c.rescheduled else c).core = c.core := by
    intro c
    split
    · rfl
    · rfl
  cases event with
  | refreshAuthToken token => exact ⟨rfl, rfl⟩
  | refreshAppCheckToken token => exact ⟨rfl, rfl⟩
  | resumeForReason reason => exact ⟨hreconnect _, rfl⟩
  | reachable => exact ⟨hreconnect c, rfl⟩
  | retry => exact ⟨rfl, rfl⟩
  | contextFetched attempt context =>
    unfold turn
    dsimp only
    split
    · cases context with
      | none => exact ⟨rfl, rfl⟩
      | some authToken =>
        dsimp only
        split
        · exact ⟨rfl, rfl⟩
        · exact ⟨rfl, rfl⟩
    · exact ⟨rfl, rfl⟩
  | ready => exact ⟨rfl, rfl⟩
  | serverError reason => exact ⟨rfl, rfl⟩
  | _ => cases h

/-- An interrupt loses the connection, or stops an attempt to get one. -/
theorem interrupt_turn (reason : String) :
    (c.turn (.interruptForReason reason)).state.core = c.core ∧ (c.turn (.interruptForReason reason)).calls = [] ∧
        (c.turn (.interruptForReason reason)).sends = [] ∨
      (c.turn (.interruptForReason reason)).state.core = c.lost.state.core ∧
        (c.turn (.interruptForReason reason)).calls = c.lost.calls ∧
        (c.turn (.interruptForReason reason)).sends = [] := by
  have hlost := c.lost_of_core { c with interruptReasons := c.interruptReasons.insert reason } rfl
  unfold turn
  dsimp only
  split
  · exact Or.inr ⟨hlost.1, hlost.2, rfl⟩
  · exact Or.inl ⟨rfl, rfl, rfl⟩

theorem blocks_responded (block : ResponseBlock θ) (status : String) :
    (c.responded block status).state.requestCBHash.Sublist c.requestCBHash := by
  unfold responded
  cases block with
  | put index =>
    dsimp only
    unfold putResponse
    split
    · exact List.Sublist.refl _
    · dsimp only
      split
      · exact List.Sublist.refl _
      · exact List.Sublist.refl _
  | get index =>
    dsimp only
    unfold getResponse
    split
    · exact List.Sublist.refl _
    · exact List.Sublist.refl _
  | listen query listenSpec =>
    dsimp only
    unfold listenResponse
    dsimp only
    split
    · exact List.Sublist.refl _
    · exact List.Sublist.refl _
  | auth restoreStateAfterComplete =>
    dsimp only
    split
    · exact List.Sublist.refl _
    · exact List.nil_sublist _
  | appCheck =>
    dsimp only
    split
    · exact List.Sublist.refl _
    · exact List.nil_sublist _
  | stats => exact List.Sublist.refl _

/-- The blocks that wait for a response are those that waited, less what was dropped. -/
theorem blocks_turn (event : ConnectionEvent ρ β θ) :
    (c.turn event).state.requestCBHash.Sublist c.requestCBHash := by
  have hcore : ∀ c' : PersistentConnection ρ β θ, c'.core = c.core →
      c'.requestCBHash.Sublist c.requestCBHash := by
    intro c' hcore
    show c'.core.requestCBHash.Sublist c.core.requestCBHash
    rw [hcore]
  by_cases hlifecycle : event.isLifecycle = true
  · exact hcore _ (c.core_turn event hlifecycle).1
  cases event with
  | listen query => exact List.Sublist.refl _
  | unlisten query => exact List.Sublist.refl _
  | putData request hash onComplete => exact List.Sublist.refl _
  | getData query onComplete => exact List.Sublist.refl _
  | getTimeout index =>
    show (c.getTimeout index).1.requestCBHash.Sublist c.requestCBHash
    unfold getTimeout
    dsimp only
    split
    · exact List.Sublist.refl _
    · split
      · exact List.Sublist.refl _
      · exact List.Sublist.refl _
  | purgeOutstandingWrites => exact List.Sublist.refl _
  | interruptForReason reason =>
    rcases c.interrupt_turn reason with ⟨hsame, -⟩ | ⟨hlost, -⟩
    · exact hcore _ hsame
    · have hnone : (c.turn (.interruptForReason reason)).state.requestCBHash = [] :=
        congrArg PersistentConnection.requestCBHash hlost
      rw [hnone]
      exact List.nil_sublist _
  | message =>
    show c.received.state.requestCBHash.Sublist c.requestCBHash
    unfold received
    split
    · dsimp only
      split
      · exact List.Sublist.refl _
      · exact (blocks_responded _ _ _).trans List.filter_sublist
    · exact List.Sublist.refl _
  | authRevoked => exact List.nil_sublist _
  | disconnect => exact List.nil_sublist _
  | _ => exact absurd rfl hlifecycle

/-! ## What an event sends -/

omit [DecidableEq θ] in
/-- What the client itself asks to be sent. -/
def asked : ConnectionEvent ρ β θ → List (Message ρ θ)
  | .listen query => [listenWhat (query, c.listenSpecs)]
  | .putData request hash onComplete =>
    [putWhat (c.putCounter, (⟨request, hash, onComplete, false⟩ : OutstandingPut ρ β))]
  | .getData query onComplete => [getWhat (c.getCounter, (⟨query, onComplete, false⟩ : OutstandingGet θ β))]
  | _ => []

omit [DecidableEq θ] in
/-- What is kept: the listens, the writes, and the reads that were not sent. -/
theorem mem_restored (what : Message ρ θ) (h : what ∈ c.restored) :
    (∃ listen ∈ c.listens, what = listenWhat listen) ∨ (∃ put ∈ c.outstandingPuts, what = putWhat put) ∨
      ∃ get ∈ c.outstandingGets, get.2.sent = false ∧ what = getWhat get := by
  rcases List.mem_append.mp h with h | h
  · rcases List.mem_append.mp h with h | h
    · obtain ⟨listen, hlisten, rfl⟩ := List.mem_map.mp h
      exact Or.inl ⟨listen, hlisten, rfl⟩
    · obtain ⟨put, hput, rfl⟩ := List.mem_map.mp h
      exact Or.inr (Or.inl ⟨put, hput, rfl⟩)
  · obtain ⟨get, hget, rfl⟩ := List.mem_map.mp h
    obtain ⟨hmem, hunsent⟩ := List.mem_filter.mp hget
    exact Or.inr (Or.inr ⟨get, hmem, by simpa using hunsent, rfl⟩)

theorem sends_responded (block : ResponseBlock θ) (status : String) :
    (c.responded block status).sends = [] ∨ (c.responded block status).sends = c.restored := by
  unfold responded
  cases block with
  | auth restoreStateAfterComplete =>
    dsimp only
    split
    · cases restoreStateAfterComplete with
      | false => exact Or.inl rfl
      | true => exact Or.inr rfl
    · exact Or.inl rfl
  | appCheck =>
    dsimp only
    split
    · exact Or.inl rfl
    · exact Or.inl rfl
  | _ => exact Or.inl rfl

theorem sends_received : c.received.sends = [] ∨ c.received.sends = c.restored := by
  unfold received
  split
  · dsimp only
    split
    · exact Or.inl rfl
    · exact sends_responded _ _ _
  · exact Or.inl rfl

theorem sends_contextFetched (attempt : ℕ) (context : Option (Option String)) :
    (c.turn (.contextFetched attempt context)).sends = [] := by
  unfold turn
  dsimp only
  split
  · cases context with
    | none => rfl
    | some authToken =>
      dsimp only
      split
      · rfl
      · rfl
  · rfl

/-- An event sends what the client asks for, what is kept, or something that no put, get or listen is about. -/
theorem sends_turn (event : ConnectionEvent ρ β θ) (what : Message ρ θ) (h : what ∈ (c.turn event).sends) :
    what ∈ c.asked event ∨ what ∈ c.restored ∨ Message.Plain what := by
  cases event with
  | listen query =>
    have hsends : (c.turn (.listen query)).sends = if c.isConnected then c.asked (.listen query) else [] := rfl
    rw [hsends] at h
    split at h
    · exact Or.inl h
    · cases h
  | unlisten query =>
    have hsends : (c.turn (.unlisten query)).sends =
      if query ∈ c.listens.map Prod.fst ∧ c.isConnected then [(.unlisten query, none)] else [] := rfl
    rw [hsends] at h
    split at h
    · rw [List.mem_singleton.mp h]
      exact Or.inr (Or.inr ⟨rfl, fun _ => ⟨rfl, rfl⟩⟩)
    · cases h
  | putData request hash onComplete =>
    have hsends : (c.turn (.putData request hash onComplete)).sends =
      if c.canSendWrites then c.asked (.putData request hash onComplete) else [] := rfl
    rw [hsends] at h
    split at h
    · exact Or.inl h
    · cases h
  | getData query onComplete =>
    have hsends : (c.turn (.getData query onComplete)).sends =
      if c.canSendReads then c.asked (.getData query onComplete) else [] := rfl
    rw [hsends] at h
    split at h
    · exact Or.inl h
    · cases h
  | refreshAuthToken token =>
    unfold turn at h
    dsimp only at h
    split at h
    · cases token with
      | none =>
        rw [List.mem_singleton.mp h]
        exact Or.inr (Or.inr ⟨rfl, fun _ => ⟨rfl, rfl⟩⟩)
      | some credential =>
        rw [List.mem_singleton.mp h]
        exact Or.inr (Or.inr ⟨rfl, fun _ => ⟨rfl, rfl⟩⟩)
    · cases h
  | refreshAppCheckToken token =>
    unfold turn at h
    dsimp only at h
    split at h
    · cases h
    · rw [List.mem_singleton.mp h]
      exact Or.inr (Or.inr ⟨rfl, fun _ => ⟨rfl, rfl⟩⟩)
  | interruptForReason reason =>
    rcases c.interrupt_turn reason with ⟨-, -, hnone⟩ | ⟨-, -, hnone⟩
    · rw [hnone] at h
      cases h
    · rw [hnone] at h
      cases h
  | contextFetched attempt context =>
    rw [sends_contextFetched] at h
    cases h
  | ready =>
    rcases List.mem_append.mp h with h | h
    · split at h
      · rw [List.mem_singleton.mp h]
        exact Or.inr (Or.inr ⟨rfl, fun _ => ⟨rfl, rfl⟩⟩)
      · cases h
    · unfold greeting at h
      split at h
      · exact Or.inr (Or.inl h)
      · rw [List.mem_singleton.mp h]
        exact Or.inr (Or.inr ⟨rfl, fun _ => ⟨rfl, rfl⟩⟩)
  | message =>
    rcases c.sends_received with hnone | hrestored
    · rw [show (c.turn .message).sends = [] from hnone] at h
      cases h
    · rw [show (c.turn .message).sends = c.restored from hrestored] at h
      exact Or.inr (Or.inl h)
  | _ => cases h

end PersistentConnection

end FlowerGift
