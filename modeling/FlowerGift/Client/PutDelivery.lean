import FlowerGift.Client.ConnectionRun
import FlowerGift.Lib.Redelivery

/-!
# Writes reach the server

The client, and a server that takes the messages of a connection in their order,
applies the writes among them, and answers in the same order.  A connection can
be lost at any time, with whatever is under way on it; the writes that were not
answered are then sent again on the next one, so a write may be applied twice,
and after a later one.  Still the writes that wait, applied to the data on the
server, give what all writes ever issued give when each is applied once
(`outstanding_delivered`): when none waits any more, the server has just that.

What the server does to a write may depend on the write alone, and has to assign:
at each place it leaves what is there or puts something fixed.  Writes of a
transaction, whose hash is compared with the data, and writes that are taken back
are left out.
-/

namespace FlowerGift

open Realtime

/-! ## The messages of a connection -/

section Messages

variable {ρ β θ : Type}

/-- The write that a message is about: its number, and what is to be done. -/
def Message.put? (what : Message ρ θ) : Option (ℕ × ρ) :=
  match what with
  | (.put request _, some (.put index)) => some (index, request)
  | _ => none

/-- For a message that signs in: whether what is kept is sent after it. -/
def Message.auth? (what : Message ρ θ) : Option Bool :=
  match what.2 with
  | some (.auth restoreStateAfterComplete) => some restoreStateAfterComplete
  | _ => none

/-- A write goes with the block of a write. -/
def Message.Fits (what : Message ρ θ) : Prop :=
  match what with
  | (.put _ _, some (.put _)) => True
  | (.put _ _, _) => False
  | (_, some (.put _)) => False
  | _ => True

def Sent.what (sent : Sent ρ θ) : Message ρ θ := (sent.message, sent.block)

theorem map_what_numbered (n : ℕ) (ws : List (Message ρ θ)) : (numbered n ws).map Sent.what = ws := by
  induction ws generalizing n with
  | nil => rfl
  | cons what ws ih => rw [numbered, List.map_cons, ih, Sent.what]

/-- The entries but the one of the first message. -/
theorem filter_entries (sent : Sent ρ θ) (sents : List (Sent ρ θ)) (h : ∀ sent' ∈ sents, sent'.rn ≠ sent.rn) :
    (((sent :: sents).filterMap Sent.entry).filter fun entry => entry.1 ≠ sent.rn) =
      sents.filterMap Sent.entry := by
  have hrest : ((sents.filterMap Sent.entry).filter fun entry => entry.1 ≠ sent.rn) = sents.filterMap Sent.entry := by
    rw [List.filter_eq_self]
    intro entry hentry
    obtain ⟨sent', hsent', hblock⟩ := List.mem_filterMap.mp hentry
    obtain ⟨block, -, rfl⟩ := Option.map_eq_some_iff.mp hblock
    simpa using h sent' hsent'
  obtain ⟨rn, message, block⟩ := sent
  cases block with
  | none => exact hrest
  | some block =>
    show (((rn, block) :: sents.filterMap Sent.entry).filter fun entry => entry.1 ≠ rn) = _
    rw [List.filter_cons_of_neg (by simp)]
    exact hrest

/-- The block that waits for the first message. -/
theorem find_entry (sent : Sent ρ θ) (sents : List (Sent ρ θ)) (h : ∀ sent' ∈ sents, sent'.rn ≠ sent.rn) :
    (((sent :: sents).filterMap Sent.entry).find? fun entry => entry.1 = sent.rn) = sent.entry := by
  obtain ⟨rn, message, block⟩ := sent
  cases block with
  | none =>
    rw [List.filterMap_cons_none rfl]
    show _ = none
    rw [List.find?_eq_none]
    intro entry hentry
    obtain ⟨sent', hsent', hblock⟩ := List.mem_filterMap.mp hentry
    obtain ⟨block, -, rfl⟩ := Option.map_eq_some_iff.mp hblock
    simpa using h sent' hsent'
  | some block =>
    show (((rn, block) :: sents.filterMap Sent.entry).find? fun entry => entry.1 = rn) = some (rn, block)
    rw [List.find?_cons_of_pos (by simp)]

/-- What the server does to its data. -/
def Request.handle {σ : Type} (effect : ρ → σ → σ) : Request ρ θ → σ → σ
  | .put request _ => effect request
  | _ => fun s => s

theorem handle_cases {σ : Type} (effect : ρ → σ → σ) (sent : Sent ρ θ) (h : sent.what.Fits) :
    (∃ put, sent.what.put? = some put ∧ ∀ s, sent.message.handle effect s = effect put.2 s) ∨
      sent.what.put? = none ∧ ∀ s, sent.message.handle effect s = s := by
  obtain ⟨rn, message, block⟩ := sent
  cases message with
  | put request hash =>
    cases block with
    | none => cases h
    | some block =>
      cases block with
      | put index => exact Or.inl ⟨(index, request), rfl, fun _ => rfl⟩
      | _ => cases h
  | _ => exact Or.inr ⟨rfl, fun _ => rfl⟩

def putsIn (ws : List (Message ρ θ)) : List (ℕ × ρ) := ws.filterMap Message.put?

def authsIn (ws : List (Message ρ θ)) : List Bool := ws.filterMap Message.auth?

theorem putsIn_append (ws ws' : List (Message ρ θ)) : putsIn (ws ++ ws') = putsIn ws ++ putsIn ws' :=
  List.filterMap_append

theorem putsIn_cons_none (what : Message ρ θ) (ws : List (Message ρ θ)) (h : what.put? = none) :
    putsIn (what :: ws) = putsIn ws :=
  List.filterMap_cons_none h

theorem putsIn_cons_some (what : Message ρ θ) (ws : List (Message ρ θ)) (put : ℕ × ρ) (h : what.put? = some put) :
    putsIn (what :: ws) = put :: putsIn ws :=
  List.filterMap_cons_some h

theorem authsIn_append (ws ws' : List (Message ρ θ)) : authsIn (ws ++ ws') = authsIn ws ++ authsIn ws' :=
  List.filterMap_append

theorem authsIn_cons_none (what : Message ρ θ) (ws : List (Message ρ θ)) (h : what.auth? = none) :
    authsIn (what :: ws) = authsIn ws :=
  List.filterMap_cons_none h

theorem authsIn_cons_some (what : Message ρ θ) (ws : List (Message ρ θ)) (restore : Bool)
    (h : what.auth? = some restore) : authsIn (what :: ws) = restore :: authsIn ws :=
  List.filterMap_cons_some h

/-- The number of a write and what is to be done. -/
def putOf (put : ℕ × OutstandingPut ρ β) : ℕ × ρ := (put.1, put.2.request)

theorem put?_of_block (message : Request ρ θ) (block : ResponseBlock θ) (h : ∀ index, block ≠ .put index) :
    Message.put? (message, some block) = none := by
  cases message with
  | put request hash =>
    cases block with
    | put index => exact absurd rfl (h index)
    | _ => rfl
  | _ => rfl

theorem auth?_of_block (message : Request ρ θ) (block : ResponseBlock θ) (h : ∀ restore, block ≠ .auth restore) :
    Message.auth? (message, some block) = none := by
  cases block with
  | auth restore => exact absurd rfl (h restore)
  | _ => rfl

end Messages

namespace PersistentConnection

variable {ρ β θ : Type} (c : PersistentConnection ρ β θ)

theorem state_of_isConnected (h : c.isConnected = true) :
    c.connectionState = .authenticating ∨ c.connectionState = .connected := by
  simpa [isConnected] using h

theorem not_connecting_of_isConnected (h : c.isConnected = true) : c.connectionState ≠ .connecting := by
  intro hconnecting
  simp [isConnected, hconnecting] at h

/-- What is under way: the messages that were answered, and those that were not. -/
structure Wires (answered unanswered : List (Sent ρ θ)) : Prop where
  realtime : ∃ toClient, c.realtime = some ⟨true, unanswered.map Sent.wire, toClient⟩ ∧
    toClient.map Prod.fst = answered.map Sent.rn
  numbers : GivenOut ((answered ++ unanswered).map Sent.rn) c.requestNumber
  blocks : c.requestCBHash = (answered ++ unanswered).filterMap Sent.entry
  fits : ∀ sent ∈ answered ++ unanswered, sent.what.Fits

namespace Wires

variable (answered unanswered : List (Sent ρ θ))

/-- Messages are sent. -/
theorem afterSending (h : c.Wires answered unanswered) (ws : List (Message ρ θ)) (hfits : ∀ what ∈ ws, what.Fits) :
    (c.afterSending ws).Wires answered (unanswered ++ numbered c.requestNumber ws) where
  realtime := by
    obtain ⟨toClient, hr, hanswered⟩ := h.realtime
    refine ⟨toClient, ?_, hanswered⟩
    simp [PersistentConnection.afterSending, hr, Connection.push]
  numbers := by
    rw [← List.append_assoc, List.map_append, map_rn_numbered]
    exact h.numbers.append_range' _ _ _ ws.length (List.Sublist.refl _)
  blocks := by
    rw [← List.append_assoc, List.filterMap_append, ← h.blocks]
    rfl
  fits := by
    intro sent hsent
    rw [← List.append_assoc] at hsent
    rcases List.mem_append.mp hsent with hsent | hsent
    · exact h.fits sent hsent
    · have hwhat : sent.what ∈ (numbered c.requestNumber ws).map Sent.what := List.mem_map_of_mem hsent
      rw [map_what_numbered] at hwhat
      exact hfits _ hwhat

/-- The next response is taken, and the block for it. -/
theorem pop (sent : Sent ρ θ) (h : c.Wires (sent :: answered) unanswered) (next : ℕ × String)
    (toServer : List (ℕ × Request ρ θ)) (toClient : List (ℕ × String))
    (hr : c.realtime = some ⟨true, toServer, next :: toClient⟩) :
    next.1 = sent.rn ∧ (c.requestCBHash.find? fun entry => entry.1 = next.1) = sent.entry ∧
      Wires { c with
        realtime := some ⟨true, toServer, toClient⟩
        requestCBHash := c.requestCBHash.filter fun entry => entry.1 ≠ next.1 } answered unanswered := by
  obtain ⟨toClient', hr', hanswered⟩ := h.realtime
  rw [hr] at hr'
  cases hr'
  obtain ⟨hnext, hrest⟩ := List.cons.inj hanswered
  have hnumbers := h.numbers
  rw [List.cons_append, List.map_cons] at hnumbers
  obtain ⟨hfirst, -⟩ := List.pairwise_cons.mp hnumbers.1
  have hlater : ∀ sent' ∈ answered ++ unanswered, sent'.rn ≠ sent.rn := by
    intro sent' hsent'
    have hlt := hfirst sent'.rn (List.mem_map_of_mem hsent')
    omega
  refine ⟨hnext, ?_, ⟨toClient, rfl, hrest⟩, hnumbers.of_sublist _ _ _ (List.sublist_cons_self _ _), ?_,
    fun sent' hsent' => h.fits sent' (List.mem_cons_of_mem _ hsent')⟩
  · rw [h.blocks, hnext]
    exact find_entry sent (answered ++ unanswered) hlater
  · show c.requestCBHash.filter _ = _
    rw [h.blocks, hnext]
    exact filter_entries sent (answered ++ unanswered) hlater

/-- The server takes the next message, and answers it. -/
theorem serve (sent : Sent ρ θ) (h : c.Wires answered (sent :: unanswered)) (toClient : List (ℕ × String))
    (hr : c.realtime = some ⟨true, (sent :: unanswered).map Sent.wire, toClient⟩) (status : String) :
    Wires { c with realtime := some ⟨true, unanswered.map Sent.wire, toClient ++ [(sent.rn, status)]⟩ }
      (answered ++ [sent]) unanswered where
  realtime := by
    obtain ⟨toClient', hr', hanswered⟩ := h.realtime
    rw [hr] at hr'
    cases hr'
    exact ⟨_, rfl, by rw [List.map_append, List.map_append, hanswered]; rfl⟩
  numbers := by
    rw [List.append_assoc]
    exact h.numbers
  blocks := by
    rw [List.append_assoc]
    exact h.blocks
  fits := by
    rw [List.append_assoc]
    exact h.fits

end Wires

/-- Nothing was sent on the connection, and nothing came. -/
structure SameConnection (c₁ : PersistentConnection ρ β θ) : Prop where
  connectionState : c₁.connectionState = c.connectionState
  realtime : c₁.realtime = c.realtime
  requestNumber : c₁.requestNumber = c.requestNumber
  requestCBHash : c₁.requestCBHash = c.requestCBHash

theorem SameConnection.isConnected (c₁ : PersistentConnection ρ β θ) (h : c.SameConnection c₁) :
    c₁.isConnected = c.isConnected := by
  rw [PersistentConnection.isConnected, PersistentConnection.isConnected, h.connectionState]

theorem SameConnection.wires (c₁ : PersistentConnection ρ β θ) (h : c.SameConnection c₁)
    (answered unanswered : List (Sent ρ θ)) (hwires : c.Wires answered unanswered) :
    c₁.Wires answered unanswered where
  realtime := h.realtime ▸ hwires.realtime
  numbers := h.requestNumber ▸ hwires.numbers
  blocks := h.requestCBHash ▸ hwires.blocks
  fits := hwires.fits

theorem sameConnection_putResponse (index : ℕ) (status : String) :
    c.SameConnection (c.putResponse index status).1 := by
  unfold putResponse
  split
  · exact ⟨rfl, rfl, rfl, rfl⟩
  · dsimp only
    split
    · exact ⟨rfl, rfl, rfl, rfl⟩
    · exact ⟨rfl, rfl, rfl, rfl⟩

theorem outstandingPuts_putResponse (index : ℕ) (status : String) :
    (c.putResponse index status).1.outstandingPuts = c.outstandingPuts.filter fun put => put.1 ≠ index := by
  unfold putResponse
  cases hput : c.putAt index with
  | none =>
    have hnone : ∀ put ∈ c.outstandingPuts, put.1 ≠ index := by simpa [putAt] using hput
    exact (List.filter_eq_self.mpr fun put hmem => by simpa using hnone put hmem).symm
  | some put =>
    dsimp only
    split
    · rfl
    · rfl

/-- The writes that wait, as what is to be done. -/
def requests : List ρ := c.outstandingPuts.map fun put => put.2.request

theorem requests_eq : c.requests = (c.outstandingPuts.map putOf).map Prod.snd := by
  rw [List.map_map]
  rfl

theorem putOf_afterSending (ws : List (Message ρ θ)) :
    (c.afterSending ws).outstandingPuts.map putOf = c.outstandingPuts.map putOf := by
  unfold afterSending
  rw [List.map_map]
  rfl

section Queued

variable {σ : Type} (effect : ρ → σ → σ)

/-- The writes under way on a connection, and those that wait: when everything that waits was sent, the
messages under way are about just the writes that wait, and those the server has still to take make up
for all of them; before that, none of them is about a write. -/
structure Queued (answered unanswered : List (Sent ρ θ)) (server : σ) : Prop where
  wires : c.Wires answered unanswered
  puts : c.connectionState = .connected →
    putsIn ((answered ++ unanswered).map Sent.what) = c.outstandingPuts.map putOf
  auths : c.connectionState = .connected → ∀ b ∈ authsIn ((answered ++ unanswered).map Sent.what), b = false
  again : c.connectionState = .connected →
    applied effect c.requests server = applied effect ((putsIn (unanswered.map Sent.what)).map Prod.snd) server
  noPuts : c.connectionState = .authenticating → putsIn ((answered ++ unanswered).map Sent.what) = []
  firstAuth : c.connectionState = .authenticating →
    ∃ rest, authsIn ((answered ++ unanswered).map Sent.what) = true :: rest ∧ ∀ b ∈ rest, b = false

variable (answered unanswered : List (Sent ρ θ)) (server : σ)

theorem Queued.congr (h : c.Queued effect answered unanswered server) (c₁ : PersistentConnection ρ β θ)
    (hsame : c.SameConnection c₁) (hputs : c₁.outstandingPuts = c.outstandingPuts) :
    c₁.Queued effect answered unanswered server := by
  have hstate := hsame.connectionState
  have hrequests : c₁.requests = c.requests := by rw [requests, hputs, requests]
  exact {
    wires := hsame.wires c c₁ answered unanswered h.wires
    puts := by rw [hstate, hputs]; exact h.puts
    auths := by rw [hstate]; exact h.auths
    again := by rw [hstate, hrequests]; exact h.again
    noPuts := by rw [hstate]; exact h.noPuts
    firstAuth := by rw [hstate]; exact h.firstAuth }

/-- Some writes are added, and sent if what waits was sent. -/
theorem Queued.grow (h : c.Queued effect answered unanswered server) (c₁ : PersistentConnection ρ β θ)
    (hsame : c.SameConnection c₁) (new : List (ℕ × OutstandingPut ρ β))
    (hputs : c₁.outstandingPuts = c.outstandingPuts ++ new)
    (ws : List (Message ρ θ)) (hfits : ∀ what ∈ ws, what.Fits) (hauths : ∀ b ∈ authsIn ws, b = false)
    (hconnected : c.connectionState = .connected → putsIn ws = new.map putOf)
    (hauthenticating : c.connectionState = .authenticating → putsIn ws = []) :
    (c₁.afterSending ws).Queued effect answered (unanswered ++ numbered c₁.requestNumber ws) server := by
  have hstate := hsame.connectionState
  have hwires := hsame.wires c c₁ answered unanswered h.wires
  have hall : (answered ++ (unanswered ++ numbered c₁.requestNumber ws)).map Sent.what =
      (answered ++ unanswered).map Sent.what ++ ws := by
    rw [← List.append_assoc, List.map_append, map_what_numbered]
  have hputsIn : putsIn ((answered ++ (unanswered ++ numbered c₁.requestNumber ws)).map Sent.what) =
      putsIn ((answered ++ unanswered).map Sent.what) ++ putsIn ws := by
    rw [hall, putsIn_append]
  have hauthsIn : authsIn ((answered ++ (unanswered ++ numbered c₁.requestNumber ws)).map Sent.what) =
      authsIn ((answered ++ unanswered).map Sent.what) ++ authsIn ws := by
    rw [hall, authsIn_append]
  refine ⟨hwires.afterSending c₁ answered unanswered ws hfits, ?_, ?_, ?_, ?_, ?_⟩
  · intro hnow
    have hbefore : c.connectionState = .connected := hstate ▸ hnow
    rw [hputsIn, h.puts hbefore, hconnected hbefore, putOf_afterSending, hputs, List.map_append]
  · intro hnow b hb
    have hbefore : c.connectionState = .connected := hstate ▸ hnow
    rw [hauthsIn] at hb
    rcases List.mem_append.mp hb with hb | hb
    · exact h.auths hbefore b hb
    · exact hauths b hb
  · intro hnow
    have hbefore : c.connectionState = .connected := hstate ▸ hnow
    have hrequests : (c₁.afterSending ws).requests = c.requests ++ (putsIn ws).map Prod.snd := by
      rw [requests_eq, putOf_afterSending, hputs, List.map_append, List.map_append, hconnected hbefore,
        requests_eq]
    have hlast : (putsIn ((unanswered ++ numbered c₁.requestNumber ws).map Sent.what)).map Prod.snd =
        (putsIn (unanswered.map Sent.what)).map Prod.snd ++ (putsIn ws).map Prod.snd := by
      rw [List.map_append, map_what_numbered, putsIn_append, List.map_append]
    rw [hrequests, hlast, applied_append, applied_append, h.again hbefore]
  · intro hnow
    have hbefore : c.connectionState = .authenticating := hstate ▸ hnow
    rw [hputsIn, h.noPuts hbefore, hauthenticating hbefore, List.append_nil]
  · intro hnow
    obtain ⟨rest, hfirst, hrest⟩ := h.firstAuth (hstate ▸ hnow)
    refine ⟨rest ++ authsIn ws, by rw [hauthsIn, hfirst, List.cons_append], ?_⟩
    intro b hb
    rcases List.mem_append.mp hb with hb | hb
    · exact hrest b hb
    · exact hauths b hb

section Server

variable {κ ν : Type} (look : σ → κ → ν) (hassigns : ∀ r, Assigns look (effect r)) (hlook : Function.Injective look)

include hassigns hlook

/-- The server takes the next message. -/
theorem Queued.serve (sent : Sent ρ θ) (h : c.Queued effect answered (sent :: unanswered) server)
    (toClient : List (ℕ × String))
    (hr : c.realtime = some ⟨true, (sent :: unanswered).map Sent.wire, toClient⟩) (status : String) :
    Queued { c with realtime := some ⟨true, unanswered.map Sent.wire, toClient ++ [(sent.rn, status)]⟩ } effect
        (answered ++ [sent]) unanswered (sent.message.handle effect server) ∧
      (c.isConnected = true →
        applied effect c.requests (sent.message.handle effect server) = applied effect c.requests server) := by
  have hwires := h.wires.serve c answered unanswered sent toClient hr status
  have hall : (answered ++ [sent] ++ unanswered).map Sent.what = (answered ++ sent :: unanswered).map Sent.what := by
    rw [List.append_assoc, List.singleton_append]
  have hputs : c.connectionState = .connected →
      putsIn ((answered ++ [sent] ++ unanswered).map Sent.what) = c.outstandingPuts.map putOf :=
    fun hnow => hall ▸ h.puts hnow
  have hnoPuts : c.connectionState = .authenticating →
      putsIn ((answered ++ [sent] ++ unanswered).map Sent.what) = [] := fun hnow => hall ▸ h.noPuts hnow
  rcases handle_cases effect sent (h.wires.fits sent (by simp)) with ⟨put, hput, hhandle⟩ | ⟨hnone, hhandle⟩
  · have hmem : put ∈ putsIn ((answered ++ sent :: unanswered).map Sent.what) :=
      List.mem_filterMap.mpr ⟨sent.what, by simp, hput⟩
    -- the write waits, so applying it now is not seen once all that waits is applied
    have hsame : c.connectionState = .connected →
        applied effect c.requests (effect put.2 server) = applied effect c.requests server := by
      intro hnow
      rw [h.puts hnow] at hmem
      exact applied_cons_of_mem look effect hassigns hlook put.2 c.requests
        (by rw [requests_eq]; exact List.mem_map_of_mem hmem) server
    have hlast : putsIn ((sent :: unanswered).map Sent.what) = put :: putsIn (unanswered.map Sent.what) := by
      rw [List.map_cons, putsIn_cons_some _ _ put hput]
    rw [hhandle]
    refine ⟨⟨hwires, hputs, fun hnow => hall ▸ h.auths hnow, ?_, hnoPuts, fun hnow => hall ▸ h.firstAuth hnow⟩, ?_⟩
    · intro hnow
      have hagain := h.again hnow
      rw [hlast, List.map_cons, applied_cons] at hagain
      exact (hsame hnow).trans hagain
    · intro hconnected
      rcases c.state_of_isConnected hconnected with hnow | hnow
      · rw [h.noPuts hnow] at hmem
        cases hmem
      · exact hsame hnow
  · have hlast : putsIn ((sent :: unanswered).map Sent.what) = putsIn (unanswered.map Sent.what) := by
      rw [List.map_cons, putsIn_cons_none _ _ hnone]
    rw [hhandle]
    refine ⟨⟨hwires, hputs, fun hnow => hall ▸ h.auths hnow, ?_, hnoPuts, fun hnow => hall ▸ h.firstAuth hnow⟩,
      fun _ => rfl⟩
    intro hnow
    exact hlast ▸ h.again hnow

end Server

/-! ## A response -/

/-- The next message is taken from the connection, with the block for it. -/
def popped (next : ℕ × String) (toServer : List (ℕ × Request ρ θ)) (toClient : List (ℕ × String)) :
    PersistentConnection ρ β θ :=
  { c with
    realtime := some ⟨true, toServer, toClient⟩
    requestCBHash := c.requestCBHash.filter fun entry => entry.1 ≠ next.1 }

section Response

variable (sent : Sent ρ θ) (h : c.Queued effect (sent :: answered) unanswered server) (next : ℕ × String)
  (toServer : List (ℕ × Request ρ θ)) (toClient : List (ℕ × String))
  (hr : c.realtime = some ⟨true, toServer, next :: toClient⟩)

include h hr

/-- The response to a message that is not about a write, and signs nobody in. -/
theorem Queued.skip (hput : sent.what.put? = none) (hauth : sent.what.auth? = none) :
    (c.popped next toServer toClient).Queued effect answered unanswered server := by
  obtain ⟨-, -, hwires⟩ := h.wires.pop c answered unanswered sent next toServer toClient hr
  have hputs : putsIn ((sent :: answered ++ unanswered).map Sent.what) =
      putsIn ((answered ++ unanswered).map Sent.what) := by
    rw [List.cons_append, List.map_cons, putsIn_cons_none _ _ hput]
  have hauths : authsIn ((sent :: answered ++ unanswered).map Sent.what) =
      authsIn ((answered ++ unanswered).map Sent.what) := by
    rw [List.cons_append, List.map_cons, authsIn_cons_none _ _ hauth]
  exact {
    wires := hwires
    puts := fun hnow => hputs ▸ h.puts hnow
    auths := fun hnow => hauths ▸ h.auths hnow
    again := h.again
    noPuts := fun hnow => hputs ▸ h.noPuts hnow
    firstAuth := fun hnow => hauths ▸ h.firstAuth hnow }

/-- The response to a sign-in after which nothing is to be sent. -/
theorem Queued.signedIn (hput : sent.what.put? = none) (hauth : sent.what.auth? = some false) :
    c.connectionState ≠ .authenticating ∧
      (c.popped next toServer toClient).Queued effect answered unanswered server := by
  obtain ⟨-, -, hwires⟩ := h.wires.pop c answered unanswered sent next toServer toClient hr
  have hputs : putsIn ((sent :: answered ++ unanswered).map Sent.what) =
      putsIn ((answered ++ unanswered).map Sent.what) := by
    rw [List.cons_append, List.map_cons, putsIn_cons_none _ _ hput]
  have hauths : authsIn ((sent :: answered ++ unanswered).map Sent.what) =
      false :: authsIn ((answered ++ unanswered).map Sent.what) := by
    rw [List.cons_append, List.map_cons, authsIn_cons_some _ _ _ hauth]
  have hnot : c.connectionState ≠ .authenticating := by
    intro hnow
    obtain ⟨rest, hfirst, -⟩ := h.firstAuth hnow
    rw [hauths] at hfirst
    cases hfirst
  exact ⟨hnot, {
    wires := hwires
    puts := fun hnow => hputs ▸ h.puts hnow
    auths := fun hnow b hb => h.auths hnow b (hauths ▸ List.mem_cons_of_mem _ hb)
    again := h.again
    noPuts := fun hnow => absurd hnow hnot
    firstAuth := fun hnow => absurd hnow hnot }⟩

/-- The response to the sign-in after which what is kept is sent: nothing under way is about a write. -/
theorem Queued.restoring (hput : sent.what.put? = none) (hauth : sent.what.auth? = some true) :
    c.connectionState ≠ .connected ∧ (c.popped next toServer toClient).Wires answered unanswered ∧
      (c.connectionState = .authenticating → putsIn ((answered ++ unanswered).map Sent.what) = [] ∧
        ∀ b ∈ authsIn ((answered ++ unanswered).map Sent.what), b = false) := by
  obtain ⟨-, -, hwires⟩ := h.wires.pop c answered unanswered sent next toServer toClient hr
  have hputs : putsIn ((sent :: answered ++ unanswered).map Sent.what) =
      putsIn ((answered ++ unanswered).map Sent.what) := by
    rw [List.cons_append, List.map_cons, putsIn_cons_none _ _ hput]
  have hauths : authsIn ((sent :: answered ++ unanswered).map Sent.what) =
      true :: authsIn ((answered ++ unanswered).map Sent.what) := by
    rw [List.cons_append, List.map_cons, authsIn_cons_some _ _ _ hauth]
  refine ⟨?_, hwires, ?_⟩
  · intro hnow
    have hfalse := h.auths hnow true (hauths ▸ List.mem_cons_self)
    cases hfalse
  · intro hnow
    obtain ⟨rest, hfirst, hrest⟩ := h.firstAuth hnow
    rw [hauths] at hfirst
    obtain ⟨-, rfl⟩ := List.cons.inj hfirst
    exact ⟨hputs ▸ h.noPuts hnow, hrest⟩

/-- The response to a write: it is the first that waits, and with it gone, applying the others gives the
same. -/
theorem Queued.answer {κ ν : Type} (look : σ → κ → ν) (hassigns : ∀ r, Assigns look (effect r))
    (hlook : Function.Injective look) (hkeys : (c.outstandingPuts.map Prod.fst).Nodup) (put : ℕ × ρ)
    (hput : sent.what.put? = some put) (hauth : sent.what.auth? = none) (hconnected : c.isConnected = true)
    (status : String) :
    ((c.popped next toServer toClient).putResponse put.1 status).1.Queued effect answered unanswered server ∧
      applied effect ((c.popped next toServer toClient).putResponse put.1 status).1.requests server =
        applied effect c.requests server := by
  obtain ⟨-, -, hwires⟩ := h.wires.pop c answered unanswered sent next toServer toClient hr
  have hputs : putsIn ((sent :: answered ++ unanswered).map Sent.what) =
      put :: putsIn ((answered ++ unanswered).map Sent.what) := by
    rw [List.cons_append, List.map_cons, putsIn_cons_some _ _ put hput]
  have hauths : authsIn ((sent :: answered ++ unanswered).map Sent.what) =
      authsIn ((answered ++ unanswered).map Sent.what) := by
    rw [List.cons_append, List.map_cons, authsIn_cons_none _ _ hauth]
  have hstate : c.connectionState = .connected := by
    rcases c.state_of_isConnected hconnected with hnow | hnow
    · have hnone := h.noPuts hnow
      rw [hputs] at hnone
      cases hnone
    · exact hnow
  have hwaiting := h.puts hstate
  rw [hputs] at hwaiting
  cases hout : c.outstandingPuts with
  | nil =>
    rw [hout] at hwaiting
    cases hwaiting
  | cons first rest =>
    rw [hout, List.map_cons] at hwaiting
    obtain ⟨hfirst, hrest⟩ := List.cons.inj hwaiting
    rw [hout, List.map_cons, List.nodup_cons] at hkeys
    have hindex : first.1 = put.1 := by rw [hfirst]; rfl
    -- the response takes the first write out
    have hrestPuts : ((c.popped next toServer toClient).putResponse put.1 status).1.outstandingPuts = rest := by
      rw [outstandingPuts_putResponse, popped, hout, List.filter_cons_of_neg (by simp [hindex]), List.filter_eq_self]
      intro put' hput'
      have hne : put'.1 ≠ first.1 := fun heq => hkeys.1 (List.mem_map.mpr ⟨put', hput', heq⟩)
      simpa [hindex] using hne
    have hsame := (c.popped next toServer toClient).sameConnection_putResponse put.1 status
    have hnow : ((c.popped next toServer toClient).putResponse put.1 status).1.connectionState = .connected :=
      hsame.connectionState.trans hstate
    have hrequests : c.requests = put.2 :: rest.map fun put => put.2.request := by
      rw [requests, hout, List.map_cons, hfirst]
      rfl
    have hrestRequests : ((c.popped next toServer toClient).putResponse put.1 status).1.requests =
        (putsIn (answered.map Sent.what)).map Prod.snd ++ (putsIn (unanswered.map Sent.what)).map Prod.snd := by
      rw [requests_eq, hrestPuts, ← hrest, List.map_append, putsIn_append, List.map_append]
    have hagain := h.again hstate
    have hafter : applied effect ((c.popped next toServer toClient).putResponse put.1 status).1.requests server =
        applied effect ((putsIn (unanswered.map Sent.what)).map Prod.snd) server := by
      rw [hrestRequests]
      refine applied_of_append look effect hassigns hlook [put.2] _ _ server ?_
      rw [← hagain, hrequests, List.append_assoc, ← hrestRequests, requests, hrestPuts]
      rfl
    exact ⟨{
      wires := hsame.wires _ _ answered unanswered hwires
      puts := fun _ => by rw [hrestPuts, hrest]
      auths := fun _ b hb => h.auths hstate b (hauths ▸ hb)
      again := fun _ => hafter
      noPuts := fun hother => by rw [hnow] at hother; cases hother
      firstAuth := fun hother => by rw [hnow] at hother; cases hother }, hafter.trans hagain.symm⟩

end Response

end Queued

end PersistentConnection

end FlowerGift
