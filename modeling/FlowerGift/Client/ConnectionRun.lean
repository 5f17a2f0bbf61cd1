import FlowerGift.Client.ConnectionInvariant

/-!
# Runs of the connection

Every event leaves a sound state sound.  So in any run, whatever the network does
to the messages under way, only an error message of the server and a second
listen to one query throw (`throws_iff`), and every completion block that was
handed in is called once, or still waits in one place (`blocks_accounted`).
-/

namespace FlowerGift

open Realtime

namespace PersistentConnection

variable {ρ β θ : Type} (c : PersistentConnection ρ β θ)

/-! ## An event leaves the state sound -/

theorem isConnected_of_canSendWrites (h : c.canSendWrites = true) : c.isConnected = true := by
  have hstate : c.connectionState = .connected := by simpa [canSendWrites] using h
  simp [isConnected, hstate]

theorem sends_connected (p : Prop) [Decidable p] (ws : List (Message ρ θ)) (h : p → c.isConnected = true) :
    (if p then ws else []) = [] ∨ c.isConnected = true := by
  by_cases hp : p
  · exact Or.inr (h hp)
  · exact Or.inl (if_neg hp)

section Changes

variable (h : c.Sound)

include h

theorem Sound.offline_of_closed (hclosed : c.realtime = none) : c.isConnected = false := by
  by_contra hconnected
  obtain ⟨toServer, toClient, hr⟩ := h.online (by simpa using hconnected)
  rw [hclosed] at hr
  cases hr

theorem Sound.authToken (token : Option String) : Sound { c with authToken := token } := { h with }

theorem Sound.dropped : c.dropped.Sound where
  online := by simp [PersistentConnection.dropped, rescheduled, isConnected]
  opening := by simp [PersistentConnection.dropped, rescheduled]
  closed := fun _ => rfl
  scheduled := fun _ => rfl
  attempt := fun _ => Or.inl rfl
  fetching := h.fetching
  quiet := fun _ => rfl
  numbers := GivenOut.nil _
  unacked := rfl
  puts := h.puts.of_sublist _ _ _ (List.filter_sublist.map _)
  gets := h.gets

/-- Giving up on a connection that was not opened yet. -/
theorem Sound.closing (hclosed : c.realtime = none) (hretry : Bool) (attempts : List ℕ)
    (hattempts : attempts.Sublist c.fetching) :
    Sound { c with connectionState := .disconnected, scheduledRetry := hretry, fetching := attempts } where
  online := by simp [isConnected]
  opening := by simp
  closed := fun _ => hclosed
  scheduled := fun _ => rfl
  attempt := fun _ => Or.inl rfl
  fetching := h.fetching.of_sublist _ _ _ hattempts
  quiet := fun _ => h.quiet (h.offline_of_closed c hclosed)
  numbers := h.numbers
  unacked := h.unacked
  puts := h.puts
  gets := h.gets

theorem Sound.reconnected : Sound (if c.connectionState = .disconnected then c.rescheduled else c) := by
  split
  · next hstate => exact { h with scheduled := fun _ => hstate }
  · exact h

theorem Sound.opened (hstate : c.connectionState = .gettingToken) (authToken : Option String) :
    Sound { c with
      fetching := c.fetching.erase c.currentFetchTokenAttempt
      authToken
      connectionState := .connecting
      realtime := some ⟨false, [], []⟩ } where
  online := by simp [isConnected]
  opening := fun _ => ⟨[], [], rfl⟩
  closed := by simp
  scheduled := by
    intro hretry
    have hdisconnected := h.scheduled hretry
    rw [hstate] at hdisconnected
    cases hdisconnected
  attempt := fun hfetch => absurd hfetch h.fetching.nodup.not_mem_erase
  fetching := h.fetching.of_sublist _ _ _ List.erase_sublist
  quiet := fun _ => h.quiet (by simp [isConnected, hstate])
  numbers := h.numbers
  unacked := h.unacked
  puts := h.puts
  gets := h.gets

theorem Sound.retried (hretry : c.scheduledRetry = true) :
    Sound { c with
      scheduledRetry := false
      connectionState := .gettingToken
      currentFetchTokenAttempt := c.currentFetchTokenAttempt + 1
      fetching := c.fetching ++ [c.currentFetchTokenAttempt + 1] } where
  online := by simp [isConnected]
  opening := by simp
  closed := fun _ => h.closed (Or.inl (h.scheduled hretry))
  scheduled := by simp
  attempt := fun _ => Or.inr rfl
  fetching := h.fetching.snoc
  quiet := fun _ => h.quiet (by simp [isConnected, h.scheduled hretry])
  numbers := h.numbers
  unacked := h.unacked
  puts := h.puts
  gets := h.gets

theorem Sound.readied (toServer : List (ℕ × Request ρ θ)) (toClient : List (ℕ × String))
    (hr : c.realtime = some ⟨false, toServer, toClient⟩) (state : ConnectionState)
    (hstate : state = .authenticating ∨ state = .connected) :
    Sound { c with
      realtime := some ⟨true, toServer, toClient⟩
      connectionState := state
      firstConnection := false } := by
  have hconnecting := h.connecting_of_opening c toServer toClient hr
  exact {
    online := fun _ => ⟨toServer, toClient, rfl⟩
    opening := by
      rintro rfl
      simp at hstate
    closed := by
      rintro (rfl | rfl)
      · simp at hstate
      · simp at hstate
    scheduled := by
      intro hretry
      have hdisconnected := h.scheduled hretry
      rw [hconnecting] at hdisconnected
      cases hdisconnected
    attempt := by
      intro hfetch
      have hwaiting := h.attempt hfetch
      rw [hconnecting] at hwaiting
      simp at hwaiting
    fetching := h.fetching
    quiet := fun _ => h.quiet (by simp [isConnected, hconnecting])
    numbers := h.numbers
    unacked := h.unacked
    puts := h.puts
    gets := h.gets }

theorem Sound.putResponse (index : ℕ) (status : String) : (c.putResponse index status).1.Sound := by
  unfold PersistentConnection.putResponse
  split
  · exact h
  · have hputs := h.puts.of_sublist _ _ _ ((List.filter_sublist (p := fun put => put.1 ≠ index)).map Prod.fst)
    simp only
    split
    · exact { h with puts := hputs }
    · exact { h with puts := hputs }

theorem Sound.getResponse (index : ℕ) (status : String) : (c.getResponse index status).1.Sound := by
  unfold PersistentConnection.getResponse
  split
  · exact h
  · exact { h with gets := h.gets.of_sublist _ _ _ (List.filter_sublist.map Prod.fst) }

theorem Sound.connected (hconnected : c.isConnected = true) : Sound { c with connectionState := .connected } := by
  have honline := h.online hconnected
  exact {
    online := fun _ => honline
    opening := by simp
    closed := by simp
    scheduled := by
      intro hretry
      simp [isConnected, h.scheduled hretry] at hconnected
    attempt := by
      intro hfetch
      rcases h.attempt hfetch with hstate | hstate
      · simp [isConnected, hstate] at hconnected
      · simp [isConnected, hstate] at hconnected
    fetching := h.fetching
    quiet := by simp [isConnected]
    numbers := h.numbers
    unacked := h.unacked
    puts := h.puts
    gets := h.gets }

end Changes

/-- What holds of an event: the change is sound, and sends on a connection that is ready. -/
structure Turn.Sound (turn : Turn ρ β θ) : Prop where
  state : turn.state.Sound
  sends : turn.sends = [] ∨ turn.state.isConnected = true

theorem Sound.lost (h : c.Sound) : c.lost.Sound := ⟨h.dropped c, Or.inl rfl⟩

/-- The next message taken from the connection. -/
theorem Sound.popped (h : c.Sound) (ready : Bool) (toServer : List (ℕ × Request ρ θ)) (next : ℕ × String)
    (toClient : List (ℕ × String)) (hr : c.realtime = some ⟨ready, toServer, next :: toClient⟩) :
    Sound { c with realtime := some ⟨ready, toServer, toClient⟩ } where
  online := by
    intro hconnected
    obtain ⟨toServer', toClient', hready⟩ := h.online hconnected
    rw [hr] at hready
    cases hready
    exact ⟨toServer, toClient, rfl⟩
  opening := by
    intro hconnecting
    obtain ⟨toServer', toClient', hopening⟩ := h.opening hconnecting
    rw [hr] at hopening
    cases hopening
    exact ⟨toServer, toClient, rfl⟩
  closed := by
    intro hclosed
    have hnone := h.closed hclosed
    rw [hr] at hnone
    cases hnone
  scheduled := h.scheduled
  attempt := h.attempt
  fetching := h.fetching
  quiet := h.quiet
  numbers := h.numbers
  unacked := h.unacked
  puts := h.puts
  gets := h.gets

/-- The network may do anything to what is under way. -/
theorem Sound.network (h : c.Sound) (toServer : List (ℕ × Request ρ θ)) (toClient : List (ℕ × String)) :
    Sound { c with realtime := c.realtime.map fun realtime => ⟨realtime.ready, toServer, toClient⟩ } := by
  exact { h with
    online := by
      intro hconnected
      obtain ⟨toServer', toClient', hr⟩ := h.online hconnected
      exact ⟨toServer, toClient, by simp [hr]⟩
    opening := by
      intro hconnecting
      obtain ⟨toServer', toClient', hr⟩ := h.opening hconnecting
      exact ⟨toServer, toClient, by simp [hr]⟩
    closed := by
      intro hclosed
      simp [h.closed hclosed] }

variable [DecidableEq θ]

/-- The response to a listen, counted down from what the listens that wait and this one make. -/
theorem Sound.listenResponse (query : θ) (listenSpec : ℕ) (status : String)
    (h : Sound { c with unackedListensCount := listensIn c.requestCBHash })
    (hcount : c.unackedListensCount = listensIn c.requestCBHash + 1) :
    (c.listenResponse query listenSpec status).1.Sound := by
  have hdown : countDown c.unackedListensCount = listensIn c.requestCBHash := by
    rw [hcount, countDown, if_neg (by omega)]
    rfl
  unfold PersistentConnection.listenResponse
  rw [hdown]
  simp only
  split
  · exact { h with }
  · exact { h with }

theorem Sound.responded (block : ResponseBlock θ) (status : String)
    (h : Sound { c with unackedListensCount := listensIn c.requestCBHash })
    (hcount : c.unackedListensCount = listensIn c.requestCBHash + if block.isListen then 1 else 0)
    (hconnected : c.isConnected = true) : (c.responded block status).Sound := by
  have hplain : block.isListen = false → c.Sound := by
    intro hblock
    rw [hblock, if_neg Bool.false_ne_true, Nat.add_zero] at hcount
    exact { h with unacked := hcount }
  unfold PersistentConnection.responded
  cases block with
  | put index => exact ⟨(hplain rfl).putResponse c index status, Or.inl rfl⟩
  | get index => exact ⟨(hplain rfl).getResponse c index status, Or.inl rfl⟩
  | listen query listenSpec => exact ⟨listenResponse c query listenSpec status h hcount, Or.inl rfl⟩
  | auth restoreStateAfterComplete =>
    dsimp only
    split
    · exact ⟨(hplain rfl).connected c hconnected, Or.inr rfl⟩
    · exact ((hplain rfl).authToken c none).lost
  | appCheck =>
    dsimp only
    split
    · exact ⟨hplain rfl, Or.inl rfl⟩
    · exact ((hplain rfl).authToken c none).lost
  | stats => exact ⟨hplain rfl, Or.inl rfl⟩

theorem Sound.received (h : c.Sound) : c.received.Sound := by
  unfold PersistentConnection.received
  split
  · next ready toServer rn status toClient hr =>
    have hpopped := h.popped c ready toServer (rn, status) toClient hr
    simp only
    split
    · exact ⟨hpopped, Or.inl rfl⟩
    · next entry hfind =>
      have hentry : entry ∈ c.requestCBHash := List.mem_of_find?_eq_some hfind
      have hrn : entry.1 = rn := by simpa using List.find?_some hfind
      have hconnected : c.isConnected = true := by
        by_contra hoffline
        rw [h.quiet (by simpa using hoffline)] at hentry
        cases hentry
      refine responded { c with
        realtime := some ⟨ready, toServer, toClient⟩
        requestCBHash := c.requestCBHash.filter fun entry => entry.1 ≠ rn } entry.2 status ?_ ?_ hconnected
      · exact { hpopped with
          quiet := fun hoffline => absurd hconnected (by rw [show c.isConnected = false from hoffline]; simp)
          numbers := h.numbers.of_sublist _ _ _ (List.filter_sublist.map Prod.fst)
          unacked := rfl }
      · subst hrn
        have hperm := perm_filter_key c.requestCBHash h.numbers.nodup entry hentry
        show c.unackedListensCount = _
        rw [h.unacked, listensIn, hperm.countP_eq, List.countP_cons]
        rfl
  · exact ⟨h, Or.inl rfl⟩

theorem Sound.contextFetched (h : c.Sound) (attempt : ℕ) (context : Option (Option String))
    (hfetch : attempt ∈ c.fetching) : (c.turn (.contextFetched attempt context)).Sound := by
  have hattempts : (c.fetching.erase attempt).Sublist c.fetching := List.erase_sublist
  -- an attempt that is not the latest, or came when nothing waited for it
  have hother : Sound { c with fetching := c.fetching.erase attempt } := { h with
    attempt := fun hmem => h.attempt (hattempts.subset hmem)
    fetching := h.fetching.of_sublist _ _ _ hattempts }
  unfold PersistentConnection.turn
  simp only
  split
  · next hlatest =>
    subst hlatest
    have hclosed := h.closed (h.attempt hfetch)
    cases context with
    | none => exact ⟨h.closing c hclosed _ _ hattempts, Or.inl rfl⟩
    | some authToken =>
      dsimp only
      split
      · next hstate => exact ⟨h.opened c hstate authToken, Or.inl rfl⟩
      · exact ⟨hother, Or.inl rfl⟩
  · exact ⟨hother, Or.inl rfl⟩

theorem Sound.ready (h : c.Sound) (henabled : c.enabled .ready = true) : (c.turn .ready).Sound := by
  obtain ⟨⟨ready, toServer, toClient⟩, hr, hnot⟩ := (Option.any_eq_true _ _).mp henabled
  obtain rfl : ready = false := by simpa using hnot
  have hstate : (if c.authToken.isNone then ConnectionState.connected else .authenticating) = .authenticating ∨
      (if c.authToken.isNone then ConnectionState.connected else .authenticating) = .connected := by
    split
    · exact Or.inr rfl
    · exact Or.inl rfl
  have hready := h.readied c toServer toClient hr _ hstate
  unfold PersistentConnection.turn
  simp only [hr, Option.map_some]
  refine ⟨hready, Or.inr ?_⟩
  unfold isConnected
  simp

theorem Sound.turn (h : c.Sound) (event : ConnectionEvent ρ β θ) (henabled : c.enabled event = true) :
    (c.turn event).Sound := by
  cases event with
  | listen query => exact ⟨{ h with }, c.sends_connected _ _ fun hconnected => hconnected⟩
  | unlisten query => exact ⟨{ h with }, c.sends_connected _ _ fun hsends => hsends.2⟩
  | putData request hash onComplete =>
    have hputs := h.puts.snoc
    exact ⟨{ h with puts := by simpa [PersistentConnection.turn] using hputs },
      c.sends_connected _ _ c.isConnected_of_canSendWrites⟩
  | getData query onComplete =>
    have hgets := h.gets.snoc
    exact ⟨{ h with gets := by simpa [PersistentConnection.turn] using hgets },
      c.sends_connected _ _ c.isConnected_of_canSendWrites⟩
  | getTimeout index =>
    refine ⟨?_, Or.inl rfl⟩
    show (c.getTimeout index).1.Sound
    unfold PersistentConnection.getTimeout
    simp only
    split
    · exact { h with }
    · split
      · exact { h with }
      · exact { h with gets := h.gets.of_sublist _ _ _ (List.filter_sublist.map Prod.fst) }
  | purgeOutstandingWrites => exact ⟨{ h with puts := GivenOut.nil _ }, Or.inl rfl⟩
  | refreshAuthToken token =>
    exact ⟨h.authToken c token, c.sends_connected _ _ fun hconnected => hconnected⟩
  | refreshAppCheckToken token =>
    refine ⟨h, ?_⟩
    by_cases hsilent : (!c.isConnected || token.isEmpty) = true
    · exact Or.inl (if_pos hsilent)
    · have hconnected : c.isConnected = true := by simp_all
      exact Or.inr hconnected
  | interruptForReason reason =>
    have hreasons : Sound { c with interruptReasons := c.interruptReasons.insert reason } := { h with }
    unfold PersistentConnection.turn
    simp only
    split
    · exact hreasons.lost
    · next hnone =>
      exact ⟨hreasons.closing _ (by simpa using hnone) false c.fetching (List.Sublist.refl _), Or.inl rfl⟩
  | resumeForReason reason =>
    have hreasons : Sound { c with interruptReasons := c.interruptReasons.erase reason } := { h with }
    exact ⟨hreasons.reconnected, Or.inl rfl⟩
  | reachable => exact ⟨h.reconnected, Or.inl rfl⟩
  | retry => exact ⟨h.retried c henabled, Or.inl rfl⟩
  | contextFetched attempt context => exact h.contextFetched c attempt context (by simpa [enabled] using henabled)
  | ready => exact h.ready c henabled
  | message => exact h.received
  | serverError reason => exact ⟨h, Or.inl rfl⟩
  | authRevoked => exact (h.authToken c none).lost
  | disconnect => exact h.lost

/-! ## Blocks that were not called yet -/

def waiting : List β :=
  c.putsToAck.map Prod.fst ++ c.outstandingPuts.map (fun put => put.2.onCompleteBlock) ++
    c.outstandingGets.map fun get => get.2.onCompleteBlock

end PersistentConnection

/-- The block that an event hands in. -/
def ConnectionEvent.handed {ρ β θ : Type} : ConnectionEvent ρ β θ → List β
  | .putData _ _ onComplete => [onComplete]
  | .getData _ onComplete => [onComplete]
  | _ => []

theorem ConnectionEvent.handed_of_lifecycle {ρ β θ : Type} (event : ConnectionEvent ρ β θ)
    (h : event.isLifecycle = true) : event.handed = [] := by
  cases event with
  | putData request hash onComplete => cases h
  | getData query onComplete => cases h
  | _ => rfl

namespace PersistentConnection

variable {ρ β θ : Type} (c : PersistentConnection ρ β θ)

theorem waiting_afterSending (ws : List (Message ρ θ)) : (c.afterSending ws).waiting = c.waiting := by
  unfold waiting afterSending
  simp only [List.map_map]
  rfl

theorem waiting_of_core (c' : PersistentConnection ρ β θ) (h : c'.core = c.core) : c'.waiting = c.waiting := by
  show c'.core.waiting = c.core.waiting
  rw [h]

theorem perm_lost : (c.lost.calls.map Prod.fst ++ c.lost.state.waiting).Perm c.waiting := by
  classical
  let cancelled := fun put : ℕ × OutstandingPut ρ β => put.2.hash.isSome && put.2.sent
  have hputs : (c.outstandingPuts.filter cancelled ++ c.outstandingPuts.filter fun put => !cancelled put).Perm
      c.outstandingPuts := List.filter_append_perm cancelled c.outstandingPuts
  have hblocks := hputs.map fun put => put.2.onCompleteBlock
  have hcalls : c.lost.calls.map Prod.fst =
      (c.outstandingPuts.filter cancelled).map fun put => put.2.onCompleteBlock := by
    simp [lost, cancelSentTransactions, cancelled]
  have hstate : c.lost.state.waiting = c.putsToAck.map Prod.fst ++
      (c.outstandingPuts.filter fun put => !cancelled put).map (fun put => put.2.onCompleteBlock) ++
      c.outstandingGets.map fun get => get.2.onCompleteBlock := rfl
  rw [List.perm_iff_count]
  intro block
  have hcount := hblocks.count_eq block
  rw [hcalls, hstate, waiting]
  simp only [List.map_append, List.count_append] at hcount ⊢
  omega

theorem perm_putResponse (hputs : (c.outstandingPuts.map Prod.fst).Nodup) (index : ℕ) (status : String) :
    ((c.putResponse index status).2.map Prod.fst ++ (c.putResponse index status).1.waiting).Perm c.waiting := by
  classical
  unfold putResponse
  cases hput : c.putAt index with
  | none => exact List.Perm.refl _
  | some put =>
    have hmem : (index, put) ∈ c.outstandingPuts := (find_key_iff _ hputs index put).mp hput
    have hblocks := (perm_filter_key _ hputs (index, put) hmem).map fun put => put.2.onCompleteBlock
    rw [List.perm_iff_count]
    intro block
    have hcount := hblocks.count_eq block
    dsimp only
    split
    · simp only [waiting, List.map_cons, List.map_nil, List.count_append, List.count_cons,
        List.count_nil] at hcount ⊢
      omega
    · simp only [waiting, List.map_cons, List.map_nil, List.map_append, List.count_append, List.count_cons,
        List.count_nil] at hcount ⊢
      omega

theorem perm_getResponse (hgets : (c.outstandingGets.map Prod.fst).Nodup) (index : ℕ) (status : String) :
    ((c.getResponse index status).2.map Prod.fst ++ (c.getResponse index status).1.waiting).Perm c.waiting := by
  classical
  unfold getResponse
  cases hget : c.getAt index with
  | none => exact List.Perm.refl _
  | some get =>
    have hmem : (index, get) ∈ c.outstandingGets := (find_key_iff _ hgets index get).mp hget
    have hblocks := (perm_filter_key _ hgets (index, get) hmem).map fun get => get.2.onCompleteBlock
    rw [List.perm_iff_count]
    intro block
    have hcount := hblocks.count_eq block
    simp only [waiting, List.map_cons, List.map_nil, List.count_append, List.count_cons,
      List.count_nil] at hcount ⊢
    omega

/-- The blocks that wait to be called are called, in their order. -/
theorem perm_ackPuts : (c.ackPuts.2.map Prod.fst ++ c.ackPuts.1.waiting).Perm c.waiting := by
  unfold ackPuts waiting
  simp

variable [DecidableEq θ]

theorem perm_listenResponse (query : θ) (listenSpec : ℕ) (status : String) :
    ((c.listenResponse query listenSpec status).2.map Prod.fst ++
      (c.listenResponse query listenSpec status).1.waiting).Perm c.waiting := by
  unfold listenResponse
  simp only
  split
  · exact perm_ackPuts _
  · exact List.Perm.refl _

theorem perm_responded (block : ResponseBlock θ) (status : String)
    (hputs : (c.outstandingPuts.map Prod.fst).Nodup) (hgets : (c.outstandingGets.map Prod.fst).Nodup) :
    ((c.responded block status).calls.map Prod.fst ++ (c.responded block status).state.waiting).Perm c.waiting := by
  unfold responded
  cases block with
  | put index => exact c.perm_putResponse hputs index status
  | get index => exact c.perm_getResponse hgets index status
  | listen query listenSpec => exact c.perm_listenResponse query listenSpec status
  | auth restoreStateAfterComplete =>
    dsimp only
    split
    · exact List.Perm.refl _
    · exact perm_lost { c with authToken := none }
  | appCheck =>
    dsimp only
    split
    · exact List.Perm.refl _
    · exact perm_lost { c with authToken := none }
  | stats => exact List.Perm.refl _

theorem perm_received (hputs : (c.outstandingPuts.map Prod.fst).Nodup)
    (hgets : (c.outstandingGets.map Prod.fst).Nodup) :
    (c.received.calls.map Prod.fst ++ c.received.state.waiting).Perm c.waiting := by
  unfold received
  split
  · simp only
    split
    · exact List.Perm.refl _
    · exact perm_responded _ _ _ hputs hgets
  · exact List.Perm.refl _

/-- An event calls blocks that were handed in and not called yet, each once. -/
theorem perm_turn (h : c.Sound) (event : ConnectionEvent ρ β θ) :
    ((c.turn event).calls.map Prod.fst ++ (c.turn event).state.waiting).Perm (c.waiting ++ event.handed) := by
  have hquiet : event.handed = [] → ((c.turn event).calls.map Prod.fst ++ (c.turn event).state.waiting).Perm c.waiting →
      ((c.turn event).calls.map Prod.fst ++ (c.turn event).state.waiting).Perm (c.waiting ++ event.handed) := by
    intro hnone hperm
    rwa [hnone, List.append_nil]
  by_cases hlifecycle : event.isLifecycle = true
  · obtain ⟨hcore, hcalls⟩ := c.core_turn event hlifecycle
    refine hquiet (event.handed_of_lifecycle hlifecycle) ?_
    rw [hcalls, waiting_of_core _ _ hcore]
    exact List.Perm.refl _
  cases event with
  | putData request hash onComplete =>
    classical
    rw [List.perm_iff_count]
    intro block
    simp only [turn, waiting, ConnectionEvent.handed, List.map_append, List.map_cons, List.map_nil,
      List.count_append, List.count_nil]
    omega
  | getData query onComplete =>
    classical
    rw [List.perm_iff_count]
    intro block
    simp only [turn, waiting, ConnectionEvent.handed, List.map_append, List.map_cons, List.map_nil,
      List.count_append, List.count_nil]
    omega
  | getTimeout index =>
    refine hquiet rfl ?_
    show ((c.getTimeout index).2.map Prod.fst ++ (c.getTimeout index).1.waiting).Perm c.waiting
    have hresponse := perm_getResponse { c with getTimers := c.getTimers.erase index } h.gets.nodup index "failed"
    unfold getResponse at hresponse
    unfold getTimeout
    simp only
    split
    · exact List.Perm.refl _
    · next get hget =>
      rw [hget] at hresponse
      split
      · exact List.Perm.refl _
      · exact hresponse
  | purgeOutstandingWrites =>
    refine hquiet rfl ?_
    show (c.purgeOutstandingWrites.2.map Prod.fst ++ c.purgeOutstandingWrites.1.waiting).Perm c.waiting
    unfold purgeOutstandingWrites ackPuts waiting
    simp only [List.map_append, List.map_map, List.map_nil, List.append_nil, List.nil_append, List.append_assoc]
    exact List.Perm.refl _
  | interruptForReason reason =>
    refine hquiet rfl ?_
    rcases c.interrupt_turn reason with ⟨hcore, hcalls, -⟩ | ⟨hcore, hcalls, -⟩
    · rw [hcalls, waiting_of_core _ _ hcore]
      exact List.Perm.refl _
    · rw [hcalls, waiting_of_core _ _ hcore]
      exact c.perm_lost
  | message => exact hquiet rfl (c.perm_received h.puts.nodup h.gets.nodup)
  | authRevoked => exact hquiet rfl (perm_lost { c with authToken := none })
  | disconnect => exact hquiet rfl c.perm_lost
  | listen query => exact hquiet rfl (List.Perm.refl _)
  | unlisten query => exact hquiet rfl (List.Perm.refl _)
  | _ => exact absurd rfl hlifecycle

end PersistentConnection

/-! ## Runs -/

/-- The client, the blocks handed in so far, and the calls so far. -/
structure Ledger (ρ β θ : Type) where
  client : PersistentConnection ρ β θ
  handedIn : List β
  called : List (β × String)

inductive ConnectionAction (ρ β θ : Type)
  | event (event : ConnectionEvent ρ β θ)
  | network (toServer : List (ℕ × Request ρ θ)) (toClient : List (ℕ × String))

namespace Ledger

variable {ρ β θ : Type} [DecidableEq θ]

def start : Ledger ρ β θ := ⟨PersistentConnection.init, [], []⟩

/-- An event that is possible, or whatever the network does; `none` also where something is thrown. -/
def step (l : Ledger ρ β θ) : ConnectionAction ρ β θ → Option (Ledger ρ β θ)
  | .event event =>
    if l.client.enabled event then
      match l.client.perform event with
      | .ok (client, calls) => some ⟨client, l.handedIn ++ event.handed, l.called ++ calls⟩
      | .error _ => none
    else none
  | .network toServer toClient =>
    some { l with
      client := { l.client with
        realtime := l.client.realtime.map fun realtime => ⟨realtime.ready, toServer, toClient⟩ } }

/-- In a sound state an event is possible or not, throws or not, and else comes to its turn. -/
theorem step_event (l : Ledger ρ β θ) (h : l.client.Sound) (event : ConnectionEvent ρ β θ) (l' : Ledger ρ β θ) :
    l.step (.event event) = some l' ↔ (l.client.enabled event = true ∧ l.client.thrown event = none) ∧
      l' = ⟨(l.client.turn event).state.afterSending (l.client.turn event).sends,
        l.handedIn ++ event.handed, l.called ++ (l.client.turn event).calls⟩ := by
  unfold step
  by_cases henabled : l.client.enabled event = true
  · cases hthrown : l.client.thrown event with
    | none =>
      have hturn := l.client.perform_eq_turn h event henabled hthrown
      rw [PersistentConnection.Performs] at hturn
      simp only [henabled, if_true, hturn, Option.some.injEq, true_and]
      exact eq_comm
    | some e => simp [henabled, l.client.perform_of_thrown event e hthrown]
  · simp [henabled]

theorem sound_step (l l' : Ledger ρ β θ) (h : l.client.Sound) (action : ConnectionAction ρ β θ)
    (hstep : l.step action = some l') : l'.client.Sound := by
  cases action with
  | network toServer toClient =>
    cases hstep
    exact h.network _ toServer toClient
  | event event =>
    obtain ⟨⟨henabled, -⟩, rfl⟩ := (l.step_event h event l').mp hstep
    have hturn := h.turn l.client event henabled
    exact hturn.state.afterSending _ _ hturn.sends

theorem sound_run (tr : List (ConnectionAction ρ β θ)) (l : Ledger ρ β θ) (hr : run step start tr = some l) :
    l.client.Sound :=
  run_invariant step (fun l => l.client.Sound) (fun l action l' h hstep => sound_step l l' h action hstep) start
    PersistentConnection.sound_init tr l hr

/-- Whatever happened before, of the events that are possible an error message throws, and a second listen
to one query, and no other. -/
theorem throws_iff (tr : List (ConnectionAction ρ β θ)) (l : Ledger ρ β θ) (hr : run step start tr = some l)
    (event : ConnectionEvent ρ β θ) (henabled : l.client.enabled event = true) (e : NSException) :
    l.client.perform event = .error e ↔
      (∃ reason, event = .serverError reason ∧ e = ⟨"FirebaseDatabaseServerError", reason⟩) ∨
        ∃ query ∈ l.client.listens.map Prod.fst, event = .listen query ∧
          e = ⟨"NSInternalInconsistencyException", "listen() called twice for the same query"⟩ := by
  have hthrown : l.client.perform event = .error e ↔ l.client.thrown event = some e := by
    cases h : l.client.thrown event with
    | none =>
      rw [l.client.perform_eq_turn (sound_run tr l hr) event henabled h]
      simp
    | some e' =>
      rw [l.client.perform_of_thrown event e' h]
      simp
  rw [hthrown]
  exact l.client.thrown_iff event e

/-- An error message on a connection with a write under way. -/
theorem throws_iff_error :
    ∃ l : Ledger ℕ ℕ ℕ,
      run step start [.event (.resumeForReason "waiting_for_open"), .event (.putData 5 none 0), .event .retry,
        .event (.contextFetched 1 (some none)), .event .ready, .network [] [(1, "ok")]] = some l ∧
      l.client.perform (.serverError "gone") = .error ⟨"FirebaseDatabaseServerError", "gone"⟩ := by
  refine ⟨_, rfl, ?_⟩
  exact (throws_iff [.event (.resumeForReason "waiting_for_open"), .event (.putData 5 none 0), .event .retry,
    .event (.contextFetched 1 (some none)), .event .ready, .network [] [(1, "ok")]] _ rfl (.serverError "gone") rfl
      _).mpr (Or.inl ⟨"gone", rfl, rfl⟩)

/-- Every block that was handed in was called once, or waits in one place. -/
theorem blocks_accounted (tr : List (ConnectionAction ρ β θ)) (l : Ledger ρ β θ)
    (hr : run step start tr = some l) :
    (l.called.map Prod.fst ++ l.client.waiting).Perm l.handedIn := by
  refine (run_invariant step
    (fun l => l.client.Sound ∧ (l.called.map Prod.fst ++ l.client.waiting).Perm l.handedIn)
    ?_ start ⟨PersistentConnection.sound_init, List.Perm.refl _⟩ tr l hr).2
  rintro l action l' ⟨h, hperm⟩ hstep
  refine ⟨sound_step l l' h action hstep, ?_⟩
  cases action with
  | network toServer toClient =>
    cases hstep
    exact hperm
  | event event =>
    obtain ⟨henabled, rfl⟩ := (l.step_event h event l').mp hstep
    have hturn := l.client.perm_turn h event
    rw [PersistentConnection.waiting_afterSending, List.map_append, List.append_assoc]
    refine (hturn.append_left _).trans ?_
    rw [← List.append_assoc]
    exact hperm.append_right _

/-- Three writes and a read: one write is answered, and then the connection is lost. -/
theorem blocks_accounted_lost :
    ∃ l : Ledger ℕ ℕ ℕ,
      run step start [.event (.resumeForReason "waiting_for_open"), .event (.putData 5 none 0), .event .retry,
        .event (.contextFetched 1 (some none)), .event .ready, .event (.getData 7 1), .event (.putData 6 (some "") 2),
        .network [] [(2, "ok")], .event .message, .event .disconnect, .event (.putData 8 none 3)] = some l ∧
      l.called = [(0, "ok"), (2, "disconnect")] ∧ (l.called.map Prod.fst ++ l.client.waiting).Perm l.handedIn := by
  refine ⟨_, rfl, rfl, ?_⟩
  exact blocks_accounted [.event (.resumeForReason "waiting_for_open"), .event (.putData 5 none 0), .event .retry,
    .event (.contextFetched 1 (some none)), .event .ready, .event (.getData 7 1), .event (.putData 6 (some "") 2),
    .network [] [(2, "ok")], .event .message, .event .disconnect, .event (.putData 8 none 3)] _ rfl

end Ledger

end FlowerGift
