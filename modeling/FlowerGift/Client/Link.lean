import FlowerGift.Client.PutDelivery

/-!
# The client and the server

Runs of the client together with a server that answers the messages of a
connection in their order.  What an event comes to keeps what holds of the writes
under way (`Linked`), so in every run the writes that wait make up for what the
server has not seen (`outstanding_delivered`).
-/

namespace FlowerGift

open Realtime

/-- A message that is not about a write, and does not sign in to have what is kept sent again. -/
structure Message.Aside {ρ θ : Type} (what : Message ρ θ) : Prop where
  fits : what.Fits
  put : what.put? = none
  auth : what.auth? ≠ some true

theorem aside_ite {ρ θ : Type} (p : Prop) [Decidable p] (what : Message ρ θ) (h : what.Aside) :
    ∀ what' ∈ if p then [what] else [], what'.Aside := by
  intro what' hwhat'
  split at hwhat'
  · rw [List.mem_singleton.mp hwhat']
    exact h
  · cases hwhat'

namespace PersistentConnection

variable {ρ β θ σ : Type} (effect : ρ → σ → σ) (c : PersistentConnection ρ β θ) (server : σ)

/-- What holds of the change that an event makes, and of the state after the messages were sent; the
writes are those that waited before, and those that come with the event. -/
structure Turn.Delivers (turn : Turn ρ β θ) (writes : List (ℕ × OutstandingPut ρ β)) : Prop where
  opening : turn.state.connectionState = .connecting → turn.state.realtime = some ⟨false, [], []⟩
  puts : ∀ put ∈ turn.state.outstandingPuts, put ∈ writes
  delivered : applied effect turn.state.requests server = applied effect (writes.map fun put => put.2.request) server
  queued : turn.state.isConnected = true →
    ∃ answered unanswered, (turn.state.afterSending turn.sends).Queued effect answered unanswered server

/-- What holds of the client and the data on the server. -/
structure Linked (issued : List ρ) (s₀ : σ) : Prop where
  sound : c.Sound
  plain : ∀ put ∈ c.outstandingPuts, put.2.hash = none
  opening : c.connectionState = .connecting → c.realtime = some ⟨false, [], []⟩
  delivered : applied effect c.requests server = applied effect issued s₀
  queued : c.isConnected = true → ∃ answered unanswered, c.Queued effect answered unanswered server

theorem requests_afterSending (ws : List (Message ρ θ)) : (c.afterSending ws).requests = c.requests := by
  rw [requests_eq, putOf_afterSending, requests_eq]

/-- Without a hash no write is cancelled. -/
theorem delivers_lost (hplain : ∀ put ∈ c.outstandingPuts, put.2.hash = none) :
    c.lost.Delivers effect server c.outstandingPuts := by
  have hsame : c.lost.state.outstandingPuts = c.outstandingPuts := by
    show (c.outstandingPuts.filter fun put => !(put.2.hash.isSome && put.2.sent)) = c.outstandingPuts
    rw [List.filter_eq_self]
    intro put hput
    simp [hplain put hput]
  exact {
    opening := fun hconnecting => by cases hconnecting
    puts := fun put hput => hsame ▸ hput
    delivered := by rw [requests, hsame]
    queued := fun hconnected => by cases hconnected }

/-- Nothing is sent, and nothing that the writes under way depend on is changed. -/
theorem delivers_same (c₁ : PersistentConnection ρ β θ) (calls : List (β × String))
    (hopening : c.connectionState = .connecting → c.realtime = some ⟨false, [], []⟩)
    (hqueued : c.isConnected = true → ∃ answered unanswered, c.Queued effect answered unanswered server)
    (hsame : c.SameConnection c₁) (hputs : c₁.outstandingPuts = c.outstandingPuts) :
    Turn.Delivers effect server ⟨c₁, calls, []⟩ c.outstandingPuts where
  opening := by
    rw [hsame.connectionState, hsame.realtime]
    exact hopening
  puts := fun put hput => hputs ▸ hput
  delivered := by rw [requests, hputs]
  queued := by
    intro hconnected
    obtain ⟨answered, unanswered, hq⟩ := hqueued ((hsame.isConnected c c₁).symm.trans hconnected)
    rw [afterSending_nil]
    exact ⟨answered, unanswered, hq.congr c effect answered unanswered server c₁ hsame hputs⟩

/-! ## What is sent again -/

theorem fits_restored : ∀ what ∈ c.restored, what.Fits := by
  intro what hwhat
  rcases c.mem_restored what hwhat with ⟨listen, -, rfl⟩ | ⟨put, -, rfl⟩ | ⟨get, -, -, rfl⟩
  · exact trivial
  · exact trivial
  · exact trivial

theorem putsIn_restored : putsIn c.restored = c.outstandingPuts.map putOf := by
  have hlistens : putsIn (c.listens.map listenWhat : List (Message ρ θ)) = [] := by
    rw [putsIn, List.filterMap_map, List.filterMap_eq_nil_iff]
    exact fun _ _ => rfl
  have hputs : putsIn (c.outstandingPuts.map putWhat : List (Message ρ θ)) = c.outstandingPuts.map putOf := by
    rw [putsIn, List.filterMap_map, ← List.filterMap_eq_map]
    rfl
  have hgets : putsIn ((c.outstandingGets.filter fun get => !get.2.sent).map getWhat : List (Message ρ θ)) = [] := by
    rw [putsIn, List.filterMap_map, List.filterMap_eq_nil_iff]
    exact fun _ _ => rfl
  rw [restored, putsIn_append, putsIn_append, hlistens, hputs, hgets, List.nil_append, List.append_nil]

theorem authsIn_restored : authsIn c.restored = [] := by
  rw [authsIn, List.filterMap_eq_nil_iff]
  intro what hwhat
  rcases c.mem_restored what hwhat with ⟨listen, -, rfl⟩ | ⟨put, -, rfl⟩ | ⟨get, -, -, rfl⟩
  · rfl
  · rfl
  · rfl

/-- Nothing under way is about a write, and what is kept is sent. -/
theorem queued_restored (hstate : c.connectionState = .connected) (answered unanswered : List (Sent ρ θ))
    (hwires : c.Wires answered unanswered) (hnoPuts : putsIn ((answered ++ unanswered).map Sent.what) = [])
    (hauths : ∀ b ∈ authsIn ((answered ++ unanswered).map Sent.what), b = false)
    (first : List (Message ρ θ)) (hfits : ∀ what ∈ first, what.Fits) (hfirstPuts : putsIn first = [])
    (hfirstAuths : authsIn first = []) :
    (c.afterSending (first ++ c.restored)).Queued effect answered
      (unanswered ++ numbered c.requestNumber (first ++ c.restored)) server := by
  have hputs : putsIn (first ++ c.restored) = c.outstandingPuts.map putOf := by
    rw [putsIn_append, hfirstPuts, putsIn_restored, List.nil_append]
  have hnoAuths : authsIn (first ++ c.restored) = [] := by
    rw [authsIn_append, hfirstAuths, authsIn_restored, List.nil_append]
  have hall : (answered ++ (unanswered ++ numbered c.requestNumber (first ++ c.restored))).map Sent.what =
      (answered ++ unanswered).map Sent.what ++ (first ++ c.restored) := by
    rw [← List.append_assoc, List.map_append, map_what_numbered]
  have hlater : putsIn (unanswered.map Sent.what) = [] := by
    rw [List.map_append, putsIn_append, List.append_eq_nil_iff] at hnoPuts
    exact hnoPuts.2
  refine ⟨hwires.afterSending c answered unanswered _ ?_, ?_, ?_, ?_, ?_, ?_⟩
  · intro what hwhat
    rcases List.mem_append.mp hwhat with hwhat | hwhat
    · exact hfits what hwhat
    · exact c.fits_restored what hwhat
  · intro _
    rw [hall, putsIn_append, hnoPuts, hputs, List.nil_append, putOf_afterSending]
  · intro _ b hb
    rw [hall, authsIn_append, hnoAuths, List.append_nil] at hb
    exact hauths b hb
  · intro _
    rw [requests_afterSending, List.map_append, map_what_numbered, putsIn_append, hlater, hputs, List.nil_append,
      requests_eq]
  · intro hnow
    rw [connectionState_afterSending, hstate] at hnow
    cases hnow
  · intro hnow
    rw [connectionState_afterSending, hstate] at hnow
    cases hnow

section Response

variable (hconnected : c.isConnected = true) (sent : Sent ρ θ) (answered unanswered : List (Sent ρ θ))
  (h : c.Queued effect (sent :: answered) unanswered server) (next : ℕ × String)
  (toServer : List (ℕ × Request ρ θ)) (toClient : List (ℕ × String))
  (hr : c.realtime = some ⟨true, toServer, next :: toClient⟩) (hput : sent.what.put? = none)

include hconnected h hr hput

/-- The response to a message that is not about a write, and signs nobody in. -/
theorem delivers_skipped (hauth : sent.what.auth? = none) (c₁ : PersistentConnection ρ β θ)
    (calls : List (β × String)) (hsame : (c.popped next toServer toClient).SameConnection c₁)
    (hputs : c₁.outstandingPuts = c.outstandingPuts) :
    Turn.Delivers effect server ⟨c₁, calls, []⟩ c.outstandingPuts := by
  have hq := h.skip c effect answered unanswered server sent next toServer toClient hr hput hauth
  exact (c.popped next toServer toClient).delivers_same effect server c₁ calls
    (fun hconnecting => absurd hconnecting (c.not_connecting_of_isConnected hconnected))
    (fun _ => ⟨answered, unanswered, hq⟩) hsame hputs

/-- The response to a sign-in: the first one has what is kept sent again. -/
theorem delivers_signedIn (restoreStateAfterComplete : Bool)
    (hauth : sent.what.auth? = some restoreStateAfterComplete) :
    Turn.Delivers effect server
      ⟨{ c.popped next toServer toClient with connectionState := .connected }, [],
        if restoreStateAfterComplete then (c.popped next toServer toClient).restored else []⟩ c.outstandingPuts := by
  cases restoreStateAfterComplete with
  | false =>
    obtain ⟨hnot, hq⟩ := h.signedIn c effect answered unanswered server sent next toServer toClient hr hput hauth
    have hstate : c.connectionState = .connected := (c.state_of_isConnected hconnected).resolve_left hnot
    exact (c.popped next toServer toClient).delivers_same effect server _ []
      (fun hconnecting => absurd hconnecting (c.not_connecting_of_isConnected hconnected))
      (fun _ => ⟨answered, unanswered, hq⟩) ⟨hstate.symm, rfl, rfl, rfl⟩ rfl
  | true =>
    obtain ⟨hnot, hwires, hnone⟩ := h.restoring c effect answered unanswered server sent next toServer toClient hr hput
      hauth
    obtain ⟨hnoPuts, hnoAuths⟩ := hnone ((c.state_of_isConnected hconnected).resolve_right hnot)
    exact {
      opening := fun hconnecting => by cases hconnecting
      puts := fun _ hput => hput
      delivered := rfl
      queued := fun _ => ⟨answered, _, queued_restored effect
        { c.popped next toServer toClient with connectionState := .connected } server rfl answered unanswered
        ⟨hwires.realtime, hwires.numbers, hwires.blocks, hwires.fits⟩ hnoPuts hnoAuths [] (by simp) rfl rfl⟩ }

end Response

section Assigning

variable [DecidableEq θ] {κ ν : Type} (look : σ → κ → ν) (hassigns : ∀ r, Assigns look (effect r))
  (hlook : Function.Injective look)

include hassigns hlook

/-- A response to the first message that was answered. -/
theorem delivers_responded (hsound : c.Sound) (hplain : ∀ put ∈ c.outstandingPuts, put.2.hash = none)
    (hconnected : c.isConnected = true) (sent : Sent ρ θ) (answered unanswered : List (Sent ρ θ))
    (h : c.Queued effect (sent :: answered) unanswered server) (next : ℕ × String)
    (toServer : List (ℕ × Request ρ θ)) (toClient : List (ℕ × String))
    (hr : c.realtime = some ⟨true, toServer, next :: toClient⟩) (block : ResponseBlock θ)
    (hblock : sent.block = some block) (status : String) :
    ((c.popped next toServer toClient).responded block status).Delivers effect server c.outstandingPuts := by
  have hwhat : sent.what = (sent.message, some block) := by rw [Sent.what, hblock]
  have hskip : (∀ index, block ≠ .put index) → (∀ restore, block ≠ .auth restore) →
      ∀ c₁ calls, (c.popped next toServer toClient).SameConnection c₁ → c₁.outstandingPuts = c.outstandingPuts →
        Turn.Delivers effect server ⟨c₁, calls, []⟩ c.outstandingPuts := by
    intro hnoPut hnoAuth c₁ calls hsame hputs
    exact c.delivers_skipped effect server hconnected sent answered unanswered h next toServer toClient hr
      (by rw [hwhat]; exact put?_of_block _ _ hnoPut) (by rw [hwhat]; exact auth?_of_block _ _ hnoAuth) c₁ calls hsame
      hputs
  have hlost : (lost { c.popped next toServer toClient with authToken := none }).Delivers effect server
      c.outstandingPuts :=
    delivers_lost effect { c.popped next toServer toClient with authToken := none } server hplain
  unfold responded
  cases block with
  | put index =>
    have hfits := h.wires.fits sent List.mem_cons_self
    rw [hwhat] at hfits
    cases hmessage : sent.message with
    | put request hash =>
      rw [hmessage] at hwhat
      obtain ⟨hq, hsame⟩ := h.answer c effect answered unanswered server sent next toServer toClient hr look hassigns
        hlook hsound.puts.nodup (index, request) (by rw [hwhat]; rfl) (by rw [hwhat]; rfl) hconnected status
      have hstate := ((c.popped next toServer toClient).sameConnection_putResponse index status).connectionState
      have hputs := (c.popped next toServer toClient).outstandingPuts_putResponse index status
      exact {
        opening := fun hconnecting =>
          absurd (hstate.symm.trans hconnecting) (c.not_connecting_of_isConnected hconnected)
        puts := fun put hput => (List.filter_sublist (l := c.outstandingPuts)).subset (hputs ▸ hput)
        delivered := hsame
        queued := fun _ => by
          rw [afterSending_nil]
          exact ⟨answered, unanswered, hq⟩ }
    | _ =>
      rw [hmessage] at hfits
      cases hfits
  | get index =>
    dsimp only
    unfold getResponse
    split
    · exact hskip (by simp) (by simp) _ _ ⟨rfl, rfl, rfl, rfl⟩ rfl
    · exact hskip (by simp) (by simp) _ _ ⟨rfl, rfl, rfl, rfl⟩ rfl
  | listen query listenSpec =>
    dsimp only
    unfold listenResponse
    dsimp only
    split
    · exact hskip (by simp) (by simp) _ _ ⟨rfl, rfl, rfl, rfl⟩ rfl
    · exact hskip (by simp) (by simp) _ _ ⟨rfl, rfl, rfl, rfl⟩ rfl
  | auth restoreStateAfterComplete =>
    dsimp only
    split
    · exact c.delivers_signedIn effect server hconnected sent answered unanswered h next toServer toClient hr
        (by rw [hwhat]; exact put?_of_block _ _ (by simp)) restoreStateAfterComplete (by rw [hwhat]; rfl)
    · exact hlost
  | appCheck =>
    dsimp only
    split
    · exact hskip (by simp) (by simp) _ _ ⟨rfl, rfl, rfl, rfl⟩ rfl
    · exact hlost
  | stats => exact hskip (by simp) (by simp) _ _ ⟨rfl, rfl, rfl, rfl⟩ rfl

/-- The next message, whatever it is. -/
theorem delivers_received (issued : List ρ) (s₀ : σ) (h : c.Linked effect server issued s₀)
    (henabled : c.enabled .message = true) : c.received.Delivers effect server c.outstandingPuts := by
  obtain ⟨⟨ready, toServer, toClient⟩, hr, hnonempty⟩ := (Option.any_eq_true _ _).mp henabled
  cases toClient with
  | nil => simp at hnonempty
  | cons next toClient =>
    have hconnected : c.isConnected = true := by
      cases ready with
      | true => exact h.sound.isConnected_of_ready c toServer (next :: toClient) hr
      | false =>
        have hopening := h.opening (h.sound.connecting_of_opening c toServer (next :: toClient) hr)
        rw [hr] at hopening
        cases hopening
    obtain ⟨answered, unanswered, hq⟩ := h.queued hconnected
    obtain ⟨toClient', hr', hanswered⟩ := hq.wires.realtime
    rw [hr] at hr'
    cases hr'
    cases answered with
    | nil => cases hanswered
    | cons sent answered =>
      obtain ⟨-, hfind, hwires⟩ := hq.wires.pop c answered unanswered sent next _ toClient hr
      obtain ⟨rn, status⟩ := next
      unfold received
      simp only [hr]
      cases hblock : sent.block with
      | some block =>
        rw [Sent.entry, hblock] at hfind
        rw [hfind]
        exact c.delivers_responded effect server look hassigns hlook h.sound h.plain hconnected sent answered unanswered
          hq (rn, status) _ toClient hr block hblock status
      | none =>
        -- nothing waits for the response, and the blocks are those of the other messages already
        rw [Sent.entry, hblock] at hfind
        rw [hfind]
        have hwhat : sent.what = (sent.message, none) := by rw [Sent.what, hblock]
        have hskip := hq.skip c effect answered unanswered server sent (rn, status) _ toClient hr
          (by rw [hwhat]; cases sent.message <;> rfl) (by rw [hwhat]; rfl)
        have hblocks : c.requestCBHash = (c.popped (rn, status) (unanswered.map Sent.wire) toClient).requestCBHash := by
          rw [hskip.wires.blocks, hq.wires.blocks, List.cons_append, List.filterMap_cons_none]
          rw [Sent.entry, hblock]
          rfl
        exact (c.popped (rn, status) (unanswered.map Sent.wire) toClient).delivers_same effect server _ []
          (fun hconnecting => absurd hconnecting (c.not_connecting_of_isConnected hconnected))
          (fun _ => ⟨answered, unanswered, hskip⟩) ⟨rfl, rfl, rfl, hblocks⟩ rfl

end Assigning

/-! ## New writes -/

/-- Some writes are added, and sent if what waits was sent. -/
theorem delivers_grow (c₁ : PersistentConnection ρ β θ) (calls : List (β × String))
    (hopening : c.connectionState = .connecting → c.realtime = some ⟨false, [], []⟩)
    (hqueued : c.isConnected = true → ∃ answered unanswered, c.Queued effect answered unanswered server)
    (hsame : c.SameConnection c₁) (new : List (ℕ × OutstandingPut ρ β))
    (hputs : c₁.outstandingPuts = c.outstandingPuts ++ new)
    (ws : List (Message ρ θ)) (hfits : ∀ what ∈ ws, what.Fits) (hauths : ∀ b ∈ authsIn ws, b = false)
    (hconnected : c.connectionState = .connected → putsIn ws = new.map putOf)
    (hauthenticating : c.connectionState = .authenticating → putsIn ws = []) :
    Turn.Delivers effect server ⟨c₁, calls, ws⟩ (c.outstandingPuts ++ new) where
  opening := by
    rw [hsame.connectionState, hsame.realtime]
    exact hopening
  puts := fun put hput => hputs ▸ hput
  delivered := by rw [requests, hputs]
  queued := by
    intro hnow
    obtain ⟨answered, unanswered, hq⟩ := hqueued ((hsame.isConnected c c₁).symm.trans hnow)
    exact ⟨answered, _, hq.grow c effect answered unanswered server c₁ hsame new hputs ws hfits hauths hconnected
      hauthenticating⟩

/-- The writes that come with an event. -/
def added : ConnectionEvent ρ β θ → List (ℕ × OutstandingPut ρ β)
  | .putData request hash onComplete => [(c.putCounter, ⟨request, hash, onComplete, false⟩)]
  | _ => []

/-- Not connected afterwards, and the writes are the same. -/
theorem delivers_offline (c₁ : PersistentConnection ρ β θ) (calls : List (β × String)) (ws : List (Message ρ θ))
    (hoffline : c₁.isConnected = false)
    (hopening : c₁.connectionState = .connecting → c₁.realtime = some ⟨false, [], []⟩)
    (hputs : c₁.outstandingPuts = c.outstandingPuts) :
    Turn.Delivers effect server ⟨c₁, calls, ws⟩ c.outstandingPuts where
  opening := hopening
  puts := fun put hput => hputs ▸ hput
  delivered := by rw [requests, hputs]
  queued := by
    intro hconnected
    rw [show c₁.isConnected = true from hconnected] at hoffline
    cases hoffline

end PersistentConnection

/-- An event that neither takes the writes back nor belongs to a transaction. -/
def ConnectionEvent.isPlain {ρ β θ : Type} : ConnectionEvent ρ β θ → Bool
  | .putData _ hash _ => hash.isNone
  | .purgeOutstandingWrites => false
  | _ => true

/-- The writes that an event brings. -/
def ConnectionEvent.requests {ρ β θ : Type} : ConnectionEvent ρ β θ → List ρ
  | .putData request _ _ => [request]
  | _ => []

namespace PersistentConnection

variable {ρ β θ σ : Type} (effect : ρ → σ → σ) (c : PersistentConnection ρ β θ) (server : σ)

theorem delivers_ready (issued : List ρ) (s₀ : σ) (h : c.Linked effect server issued s₀) [DecidableEq θ]
    (henabled : c.enabled .ready = true) : (c.turn .ready).Delivers effect server c.outstandingPuts := by
  obtain ⟨⟨ready, toServer, toClient⟩, hr, hnot⟩ := (Option.any_eq_true _ _).mp henabled
  obtain rfl : ready = false := by simpa using hnot
  have hconnecting := h.sound.connecting_of_opening c toServer toClient hr
  have hempty := h.opening hconnecting
  let stats : List (Message ρ θ) := if c.firstConnection then [(.stats, some .stats)] else []
  have hstats : (∀ what ∈ stats, what.Fits) ∧ putsIn stats = [] ∧ authsIn stats = [] := by
    by_cases hfirst : c.firstConnection = true
    · rw [show stats = [(.stats, some .stats)] from if_pos hfirst]
      refine ⟨?_, rfl, rfl⟩
      intro what hwhat
      rw [List.mem_singleton.mp hwhat]
      exact trivial
    · rw [show stats = [] from if_neg hfirst]
      exact ⟨by simp, rfl, rfl⟩
  have hquiet : c.requestCBHash = [] := h.sound.quiet (by simp [isConnected, hconnecting])
  have hwires : (c.turn .ready).state.Wires [] [] := {
    realtime := ⟨[], by
      show c.realtime.map _ = _
      rw [hempty]
      rfl, rfl⟩
    numbers := GivenOut.nil _
    blocks := hquiet
    fits := by simp }
  have hsends : (c.turn .ready).sends = stats ++ c.greeting := rfl
  refine ⟨?_, fun _ hput => hput, rfl, fun _ => ?_⟩
  · intro hnow
    have hstate : (c.turn .ready).state.connectionState = .connected ∨
        (c.turn .ready).state.connectionState = .authenticating := by
      show (if c.authToken.isNone then ConnectionState.connected else .authenticating) = .connected ∨
        (if c.authToken.isNone then ConnectionState.connected else .authenticating) = .authenticating
      split
      · exact Or.inl rfl
      · exact Or.inr rfl
    rw [hnow] at hstate
    simp at hstate
  rcases Option.eq_none_or_eq_some c.authToken with htoken | ⟨credential, htoken⟩
  · have hstate : (c.turn .ready).state.connectionState = .connected := if_pos (by rw [htoken]; rfl)
    have hgreeting : c.greeting = (c.turn .ready).state.restored := by
      rw [greeting, htoken]
      rfl
    rw [hsends, hgreeting]
    exact ⟨[], _, queued_restored effect (c.turn .ready).state server hstate [] [] hwires rfl (fun _ hb => by cases hb)
      stats hstats.1 hstats.2.1 hstats.2.2⟩
  · have hstate : (c.turn .ready).state.connectionState = .authenticating :=
      if_neg (by rw [htoken]; exact Bool.false_ne_true)
    have hgreeting : c.greeting = [(.auth credential, some (.auth true))] := by rw [greeting, htoken]
    rw [hsends, hgreeting]
    have hfits : ∀ what ∈ stats ++ [((.auth credential, some (.auth true)) : Message ρ θ)], what.Fits := by
      intro what hwhat
      rcases List.mem_append.mp hwhat with hwhat | hwhat
      · exact hstats.1 what hwhat
      · rw [List.mem_singleton.mp hwhat]
        exact trivial
    have hnot : (afterSending (c.turn .ready).state (stats ++ [(.auth credential, some (.auth true))])).connectionState ≠
        .connected := by
      rw [connectionState_afterSending, hstate]
      simp
    refine ⟨[], _, hwires.afterSending _ [] [] _ hfits, fun hnow => absurd hnow hnot, fun hnow => absurd hnow hnot,
      fun hnow => absurd hnow hnot, fun _ => ?_, fun _ => ⟨[], ?_, by simp⟩⟩
    · rw [List.nil_append, List.nil_append, map_what_numbered, putsIn_append, hstats.2.1]
      rfl
    · rw [List.nil_append, List.nil_append, map_what_numbered, authsIn_append, hstats.2.2]
      rfl

/-! ## Every event -/

/-- A reconnect that is only scheduled. -/
theorem SameConnection.rescheduled (c₁ : PersistentConnection ρ β θ) (h : c.SameConnection c₁) :
    c.SameConnection (if c₁.connectionState = .disconnected then c₁.rescheduled else c₁) := by
  split
  · exact ⟨h.connectionState, h.realtime, h.requestNumber, h.requestCBHash⟩
  · exact h

theorem outstandingPuts_rescheduled (c₁ : PersistentConnection ρ β θ) :
    (if c₁.connectionState = .disconnected then c₁.rescheduled else c₁).outstandingPuts = c₁.outstandingPuts := by
  split
  · rfl
  · rfl

/-- The writes stay, and what is sent is not about them. -/
theorem Linked.aside (issued : List ρ) (s₀ : σ) (h : c.Linked effect server issued s₀)
    {c₁ : PersistentConnection ρ β θ} {calls : List (β × String)} {ws : List (Message ρ θ)}
    (hsame : c.SameConnection c₁) (hputs : c₁.outstandingPuts = c.outstandingPuts)
    (haside : ∀ what ∈ ws, what.Aside) : Turn.Delivers effect server ⟨c₁, calls, ws⟩ c.outstandingPuts := by
  have hnoPuts : putsIn ws = [] := by
    rw [putsIn, List.filterMap_eq_nil_iff]
    exact fun what hwhat => (haside what hwhat).put
  have hauths : ∀ b ∈ authsIn ws, b = false := by
    intro b hb
    obtain ⟨what, hwhat, hauth⟩ := List.mem_filterMap.mp hb
    cases b with
    | false => rfl
    | true => exact absurd hauth (haside what hwhat).auth
  have hgrow := c.delivers_grow effect server c₁ calls h.opening h.queued hsame []
    (by rw [hputs, List.append_nil]) ws (fun what hwhat => (haside what hwhat).fits) hauths (fun _ => hnoPuts)
    (fun _ => hnoPuts)
  rwa [List.append_nil] at hgrow

section Events

variable [DecidableEq θ] {κ ν : Type} (look : σ → κ → ν) (hassigns : ∀ r, Assigns look (effect r))
  (hlook : Function.Injective look) (issued : List ρ) (s₀ : σ) (h : c.Linked effect server issued s₀)

include hassigns hlook h

theorem delivers_turn (event : ConnectionEvent ρ β θ) (henabled : c.enabled event = true)
    (hplain : event.isPlain = true) :
    (c.turn event).Delivers effect server (c.outstandingPuts ++ c.added event) := by
  -- an event that brings no write
  have hquiet : c.added event = [] → (c.turn event).Delivers effect server c.outstandingPuts →
      (c.turn event).Delivers effect server (c.outstandingPuts ++ c.added event) := by
    intro hnone hdelivers
    rwa [hnone, List.append_nil]
  cases event with
  | listen query =>
    refine hquiet rfl (h.aside effect c server issued s₀ ⟨rfl, rfl, rfl, rfl⟩ rfl ?_)
    exact aside_ite _ _ ⟨trivial, rfl, by simp [listenWhat, Message.auth?]⟩
  | unlisten query =>
    refine hquiet rfl (h.aside effect c server issued s₀ ⟨rfl, rfl, rfl, rfl⟩ rfl ?_)
    exact aside_ite _ _ ⟨trivial, rfl, by simp [Message.auth?]⟩
  | putData request hash onComplete =>
    let put : ℕ × OutstandingPut ρ β := (c.putCounter, ⟨request, hash, onComplete, false⟩)
    refine c.delivers_grow effect server { c with
      putCounter := c.putCounter + 1
      outstandingPuts := c.outstandingPuts ++ [put] } [] h.opening h.queued ⟨rfl, rfl, rfl, rfl⟩ [put] rfl
      (if c.canSendWrites then [putWhat put] else []) ?_ ?_ ?_ ?_
    · split
      · simp [putWhat, Message.Fits]
      · simp
    · split
      · simp [authsIn, putWhat, Message.auth?]
      · simp [authsIn]
    · intro hnow
      rw [if_pos (by simp [canSendWrites, hnow])]
      rfl
    · intro hnow
      rw [if_neg (by simp [canSendWrites, hnow])]
      rfl
  | getData query onComplete =>
    refine hquiet rfl (h.aside effect c server issued s₀ ⟨rfl, rfl, rfl, rfl⟩ rfl ?_)
    exact aside_ite _ _ ⟨trivial, rfl, by simp [getWhat, Message.auth?]⟩
  | getTimeout index =>
    refine hquiet rfl ?_
    show Turn.Delivers effect server ⟨(c.getTimeout index).1, (c.getTimeout index).2, []⟩ c.outstandingPuts
    unfold getTimeout
    dsimp only
    split
    · exact h.aside effect c server issued s₀ ⟨rfl, rfl, rfl, rfl⟩ rfl (by simp)
    · split
      · exact h.aside effect c server issued s₀ ⟨rfl, rfl, rfl, rfl⟩ rfl (by simp)
      · exact h.aside effect c server issued s₀ ⟨rfl, rfl, rfl, rfl⟩ rfl (by simp)
  | purgeOutstandingWrites => cases hplain
  | refreshAuthToken token =>
    refine hquiet rfl (h.aside effect c server issued s₀ ⟨rfl, rfl, rfl, rfl⟩ rfl (aside_ite _ _ ?_))
    cases token with
    | none => exact ⟨trivial, rfl, by simp [Message.auth?]⟩
    | some credential => exact ⟨trivial, rfl, by simp [Message.auth?]⟩
  | refreshAppCheckToken token =>
    refine hquiet rfl (h.aside effect c server issued s₀ ⟨rfl, rfl, rfl, rfl⟩ rfl ?_)
    split
    · simp
    · intro what hwhat
      rw [List.mem_singleton.mp hwhat]
      exact ⟨trivial, rfl, by simp [Message.auth?]⟩
  | interruptForReason reason =>
    refine hquiet rfl ?_
    have hlost := delivers_lost effect { c with interruptReasons := c.interruptReasons.insert reason } server h.plain
    unfold turn
    dsimp only
    split
    · exact hlost
    · exact c.delivers_offline effect server _ _ _ (by simp [isConnected]) (by simp) rfl
  | resumeForReason reason =>
    have hsame : c.SameConnection { c with interruptReasons := c.interruptReasons.erase reason } := ⟨rfl, rfl, rfl, rfl⟩
    exact hquiet rfl (h.aside effect c server issued s₀ (hsame.rescheduled c) (outstandingPuts_rescheduled _) (by simp))
  | reachable =>
    have hsame : c.SameConnection c := ⟨rfl, rfl, rfl, rfl⟩
    exact hquiet rfl (h.aside effect c server issued s₀ (hsame.rescheduled c) (outstandingPuts_rescheduled c) (by simp))
  | retry => exact hquiet rfl (c.delivers_offline effect server _ _ _ (by simp [isConnected]) (by simp) rfl)
  | contextFetched attempt context =>
    refine hquiet rfl ?_
    unfold turn
    dsimp only
    split
    · cases context with
      | none => exact c.delivers_offline effect server _ _ _ (by simp [isConnected, rescheduled]) (by simp [rescheduled]) rfl
      | some authToken =>
        dsimp only
        split
        · exact c.delivers_offline effect server _ _ _ (by simp [isConnected]) (fun _ => rfl) rfl
        · exact h.aside effect c server issued s₀ ⟨rfl, rfl, rfl, rfl⟩ rfl (by simp)
    · exact h.aside effect c server issued s₀ ⟨rfl, rfl, rfl, rfl⟩ rfl (by simp)
  | ready => exact hquiet rfl (c.delivers_ready effect server issued s₀ h henabled)
  | message => exact hquiet rfl (c.delivers_received effect server look hassigns hlook issued s₀ h henabled)
  | serverError reason =>
    exact hquiet rfl (h.aside effect c server issued s₀ ⟨rfl, rfl, rfl, rfl⟩ rfl (by simp))
  | authRevoked => exact hquiet rfl (delivers_lost effect { c with authToken := none } server h.plain)
  | disconnect => exact hquiet rfl (c.delivers_lost effect server h.plain)

/-- What holds of the client and the server holds after the event. -/
theorem Linked.turn (event : ConnectionEvent ρ β θ) (henabled : c.enabled event = true)
    (hplain : event.isPlain = true) :
    Linked effect ((c.turn event).state.afterSending (c.turn event).sends) server (issued ++ event.requests) s₀ := by
  have hdelivers := c.delivers_turn effect server look hassigns hlook issued s₀ h event henabled hplain
  have hsound := h.sound.turn c event henabled
  have hadded : (c.added event).map (fun put => put.2.request) = event.requests := by
    cases event with
    | putData request hash onComplete => rfl
    | _ => rfl
  exact {
    sound := hsound.state.afterSending _ _ hsound.sends
    plain := by
      intro put hput
      obtain ⟨put', hput', rfl⟩ := List.mem_map.mp hput
      rcases List.mem_append.mp (hdelivers.puts put' hput') with hold | hnew
      · exact h.plain put' hold
      · cases event with
        | putData request hash onComplete =>
          rw [List.mem_singleton.mp hnew]
          exact Option.isNone_iff_eq_none.mp hplain
        | _ => cases hnew
    opening := by
      intro hconnecting
      have hnow : (c.turn event).state.connectionState = .connecting := hconnecting
      rcases hsound.sends with hnone | hconnected
      · rw [hnone, afterSending_nil]
        exact hdelivers.opening hnow
      · exact absurd hnow ((c.turn event).state.not_connecting_of_isConnected hconnected)
    delivered := by
      rw [requests_afterSending, hdelivers.delivered, List.map_append, hadded, applied_append, applied_append]
      exact congrArg (applied effect event.requests) h.delivered
    queued := hdelivers.queued }

end Events

/-- The server takes the next message of the connection, and answers it. -/
theorem Linked.serve {κ ν : Type} (look : σ → κ → ν) (hassigns : ∀ r, Assigns look (effect r))
    (hlook : Function.Injective look) (issued : List ρ) (s₀ : σ) (h : c.Linked effect server issued s₀)
    (ready : Bool) (rn : ℕ) (message : Request ρ θ) (toServer : List (ℕ × Request ρ θ)) (toClient : List (ℕ × String))
    (hr : c.realtime = some ⟨ready, (rn, message) :: toServer, toClient⟩) (status : String) :
    Linked effect { c with realtime := some ⟨ready, toServer, toClient ++ [(rn, status)]⟩ }
      (message.handle effect server) issued s₀ := by
  have hconnected : c.isConnected = true := by
    cases ready with
    | true => exact h.sound.isConnected_of_ready c _ _ hr
    | false =>
      have hopening := h.opening (h.sound.connecting_of_opening c _ _ hr)
      rw [hr] at hopening
      cases hopening
  obtain ⟨answered, unanswered, hq⟩ := h.queued hconnected
  obtain ⟨toClient', hr', -⟩ := hq.wires.realtime
  rw [hr] at hr'
  cases unanswered with
  | nil => cases hr'
  | cons sent unanswered =>
    cases hr'
    obtain ⟨hserved, hsame⟩ := hq.serve c effect answered unanswered server look hassigns hlook sent toClient hr status
    have hnetwork := h.sound.network c (unanswered.map Sent.wire) (toClient ++ [(sent.rn, status)])
    rw [hr] at hnetwork
    exact {
      sound := hnetwork
      plain := h.plain
      opening := fun hconnecting => absurd hconnecting (c.not_connecting_of_isConnected hconnected)
      delivered := (hsame hconnected).trans h.delivered
      queued := fun _ => ⟨answered ++ [sent], unanswered, hserved⟩ }

end PersistentConnection

/-! ## Runs -/

/-- The client, the data on the server, and the writes issued so far. -/
structure Link (ρ β θ σ : Type) where
  client : PersistentConnection ρ β θ
  server : σ
  issued : List ρ

inductive LinkAction (ρ β θ : Type)
  | event (event : ConnectionEvent ρ β θ)
  | serve (status : String)

/-- An action that neither takes the writes back nor belongs to a transaction. -/
def LinkAction.isPlain {ρ β θ : Type} : LinkAction ρ β θ → Bool
  | .event e => e.isPlain
  | .serve _ => true

namespace Link

variable {ρ β θ σ : Type} [DecidableEq θ] (effect : ρ → σ → σ)

def start (s₀ : σ) : Link ρ β θ σ := ⟨PersistentConnection.init, s₀, []⟩

/-- An event of the client, or the server takes the next message of the connection and answers it. -/
def step (link : Link ρ β θ σ) : LinkAction ρ β θ → Option (Link ρ β θ σ)
  | .event event =>
    if link.client.enabled event then
      match link.client.perform event with
      | .ok (client, _) => some { link with client, issued := link.issued ++ event.requests }
      | .error _ => none
    else none
  | .serve status =>
    match link.client.realtime with
    | some ⟨ready, (rn, message) :: toServer, toClient⟩ =>
      some { link with
        client := { link.client with realtime := some ⟨ready, toServer, toClient ++ [(rn, status)]⟩ }
        server := message.handle effect link.server }
    | _ => none

section Assigning

variable {κ ν : Type} (look : σ → κ → ν) (hassigns : ∀ r, Assigns look (effect r))
  (hlook : Function.Injective look) (s₀ : σ)

include hassigns hlook

theorem linked_step (link link' : Link ρ β θ σ) (h : link.client.Linked effect link.server link.issued s₀)
    (action : LinkAction ρ β θ) (hplain : action.isPlain = true) (hstep : link.step effect action = some link') :
    link'.client.Linked effect link'.server link'.issued s₀ := by
  cases action with
  | event event =>
    unfold step at hstep
    by_cases henabled : link.client.enabled event = true
    · cases hthrown : link.client.thrown event with
      | none =>
        have hturn := link.client.perform_eq_turn h.sound event henabled hthrown
        rw [PersistentConnection.Performs] at hturn
        simp only [henabled, if_true, hturn] at hstep
        cases hstep
        exact h.turn effect link.client link.server look hassigns hlook link.issued s₀ event henabled hplain
      | some e => simp [henabled, link.client.perform_of_thrown event e hthrown] at hstep
    · simp [henabled] at hstep
  | serve status =>
    unfold step at hstep
    dsimp only at hstep
    split at hstep
    · next ready rn message toServer toClient hr =>
      cases hstep
      exact h.serve effect link.client link.server look hassigns hlook link.issued s₀ ready rn message toServer
        toClient hr status
    · cases hstep

theorem linked_run (tr : List (LinkAction ρ β θ)) (link : Link ρ β θ σ)
    (hplain : ∀ action ∈ tr, action.isPlain = true) (hr : run (step effect) (start s₀) tr = some link) :
    link.client.Linked effect link.server link.issued s₀ := by
  have hstart : (start s₀ : Link ρ β θ σ).client.Linked effect s₀ [] s₀ := {
    sound := PersistentConnection.sound_init
    plain := by simp [start, PersistentConnection.init]
    opening := by simp [start, PersistentConnection.init]
    delivered := rfl
    queued := by simp [start, PersistentConnection.init, PersistentConnection.isConnected] }
  have hall := always_of_forall (step effect) (fun action => action.isPlain = true) (start s₀) tr hplain
  exact run_induction_of_always (step effect) (fun _ action => action.isPlain = true) (start s₀)
    (fun _ link => link.client.Linked effect link.server link.issued s₀) hstart
    (fun _ l action l' _ h hplain hstep => linked_step effect look hassigns hlook s₀ l l' h action hplain hstep)
    tr link hall hr

/-- In every run without transactions in which no write is taken back, the writes that wait, applied to
what is on the server, give what all writes issued so far give when each is applied once to what was on
the server at first. -/
theorem outstanding_delivered (tr : List (LinkAction ρ β θ)) (link : Link ρ β θ σ)
    (hplain : ∀ action ∈ tr, action.isPlain = true) (hr : run (step effect) (start s₀) tr = some link) :
    applied effect link.client.requests link.server = applied effect link.issued s₀ :=
  (linked_run effect look hassigns hlook s₀ tr link hplain hr).delivered

end Assigning

/-- Two writes to one place reach the server, the connection is lost with both answers, and then the first
one reaches the server again. -/
theorem outstanding_delivered_again :
    ∃ link : Link (ℕ × ℕ) ℕ ℕ (ℕ → ℕ),
      run (step fun r s k => if k = r.1 then r.2 else s k) (start fun _ => 0)
        [.event (.putData (5, 1) none 0), .event (.resumeForReason "waiting_for_open"), .event .retry,
          .event (.contextFetched 1 (some none)), .event .ready, .event (.putData (5, 2) none 1), .serve "ok",
          .serve "ok", .serve "ok", .event .disconnect, .event .retry, .event (.contextFetched 2 (some none)),
          .event .ready, .serve "ok"] = some link ∧
      link.server 5 = 1 ∧
      applied (fun r s k => if k = r.1 then r.2 else s k) link.client.requests link.server =
        applied (fun r s k => if k = r.1 then r.2 else s k) link.issued fun _ => 0 := by
  refine ⟨_, rfl, rfl, ?_⟩
  refine outstanding_delivered (fun (r : ℕ × ℕ) (s : ℕ → ℕ) k => if k = r.1 then r.2 else s k) (fun s => s) ?_
    (fun _ _ heq => heq) (fun _ => 0)
    [.event (.putData (5, 1) none 0), .event (.resumeForReason "waiting_for_open"), .event .retry,
      .event (.contextFetched 1 (some none)), .event .ready, .event (.putData (5, 2) none 1), .serve "ok",
      .serve "ok", .serve "ok", .event .disconnect, .event .retry, .event (.contextFetched 2 (some none)),
      .event .ready, .serve "ok"] _ (by simp [LinkAction.isPlain, ConnectionEvent.isPlain]) rfl
  intro r k
  by_cases hk : k = r.1
  · exact Or.inr ⟨r.2, fun s => if_pos hk⟩
  · exact Or.inl fun s => if_neg hk

/-! ## Documents -/

/-- Writes of one or several documents at their paths: once none waits any more, the server has what they
make of its document, each made once and in the order they were issued. -/
theorem document_delivered {κ α : Type} (d₀ : Doc κ α)
    (tr : List (LinkAction (List (List κ × Doc κ α)) β θ)) (link : Link (List (List κ × Doc κ α)) β θ (Doc κ α))
    (hplain : ∀ action ∈ tr, action.isPlain = true)
    (hr : run (step (applied fun w d => d.write w.1 w.2)) (start d₀) tr = some link)
    (hnone : link.client.outstandingPuts = []) :
    link.server = applied (applied fun w d => d.write w.1 w.2) link.issued d₀ := by
  have hassigns : ∀ ws : List (List κ × Doc κ α),
      Assigns (fun d : Doc κ α => d) (applied (fun w d => d.write w.1 w.2) ws) :=
    assigns_applied _ _ fun w => Doc.assigns_write w.1 w.2
  have hlinked := linked_run (applied fun w d => d.write w.1 w.2) (fun d : Doc κ α => d) hassigns
    (fun _ _ heq => heq) d₀ tr link hplain hr
  have hrequests : link.client.requests = [] := by rw [PersistentConnection.requests, hnone, List.map_nil]
  have hdelivered := hlinked.delivered
  rwa [hrequests, applied_nil] at hdelivered

end Link

end FlowerGift
