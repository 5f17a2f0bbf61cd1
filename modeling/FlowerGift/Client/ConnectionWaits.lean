import FlowerGift.Client.ConnectionRun

/-!
# What waits for ever

Losing a connection drops every block that waits for a response, but it leaves
`sent` in the reads, and it leaves the writes that were answered while a listen
was not.  A read that was sent is not sent again (`sendGet` returns early), so
its block is never called (`sent_get_waits`).  The blocks of the answered writes
are called when the last listen is answered; with nothing listened to, that does
not come (`putsToAck_wait`).
-/

namespace FlowerGift

open Realtime

namespace PersistentConnection

variable {ρ β θ : Type} (c : PersistentConnection ρ β θ)

/-- No block of a kind waits for a response. -/
def NoBlock (kind : ResponseBlock θ → Bool) : Prop := ∀ entry ∈ c.requestCBHash, kind entry.2 = false

variable [DecidableEq θ]

/-- An event that sends no message of a kind leaves no block of that kind waiting. -/
theorem NoBlock.turn (kind : ResponseBlock θ → Bool) (h : c.NoBlock kind) (event : ConnectionEvent ρ β θ)
    (hsends : ∀ what ∈ (c.turn event).sends, what.2.any kind = false) :
    ((c.turn event).state.afterSending (c.turn event).sends).NoBlock kind := by
  intro entry hentry
  rcases List.mem_append.mp hentry with hentry | hentry
  · exact h entry ((c.blocks_turn event).subset hentry)
  · obtain ⟨what, hwhat, hblock⟩ := mem_entries_numbered _ _ entry hentry
    have hnot := hsends what hwhat
    rwa [hblock, Option.any_some] at hnot

/-! ## Reads that were sent -/

/-- A read that was sent, while nothing waits for the response to it. -/
structure Unanswered (get : ℕ × OutstandingGet θ β) : Prop where
  mem : get ∈ c.outstandingGets
  sent : get.2.sent = true
  block : c.NoBlock (ResponseBlock.isGet get.1)

section Unanswered

variable (get : ℕ × OutstandingGet θ β)

omit [DecidableEq θ] in
theorem mem_getResponse (h : get ∈ c.outstandingGets) (index : ℕ) (hne : get.1 ≠ index) (status : String) :
    get ∈ (c.getResponse index status).1.outstandingGets := by
  unfold getResponse
  split
  · exact h
  · exact List.mem_filter.mpr ⟨h, by simpa using hne⟩

theorem mem_responded (h : get ∈ c.outstandingGets) (block : ResponseBlock θ)
    (hblock : block.isGet get.1 = false) (status : String) :
    get ∈ (c.responded block status).state.outstandingGets := by
  unfold responded
  cases block with
  | put index =>
    dsimp only
    unfold putResponse
    split
    · exact h
    · dsimp only
      split
      · exact h
      · exact h
  | get index =>
    have hne : index ≠ get.1 := by simpa [ResponseBlock.isGet] using hblock
    exact c.mem_getResponse get h index hne.symm status
  | listen query listenSpec =>
    dsimp only
    unfold listenResponse
    dsimp only
    split
    · exact h
    · exact h
  | auth restoreStateAfterComplete =>
    dsimp only
    split
    · exact h
    · exact h
  | appCheck =>
    dsimp only
    split
    · exact h
    · exact h
  | stats => exact h

variable (hsound : c.Sound) (h : c.Unanswered get)

include hsound h

theorem Unanswered.mem_turn (event : ConnectionEvent ρ β θ) :
    get ∈ (c.turn event).state.outstandingGets := by
  have hcore : ∀ c' : PersistentConnection ρ β θ, c'.core = c.core → get ∈ c'.outstandingGets := by
    intro c' hcore
    show get ∈ c'.core.outstandingGets
    rw [hcore]
    exact h.mem
  by_cases hlifecycle : event.isLifecycle = true
  · exact hcore _ (c.core_turn event hlifecycle).1
  cases event with
  | listen query => exact h.mem
  | unlisten query => exact h.mem
  | putData request hash onComplete => exact h.mem
  | getData query onComplete => exact List.mem_append_left _ h.mem
  | getTimeout index =>
    show get ∈ (c.getTimeout index).1.outstandingGets
    unfold getTimeout
    dsimp only
    split
    · exact h.mem
    · next get' hget' =>
      split
      · exact h.mem
      · next hunsent =>
        have hne : get.1 ≠ index := by
          rintro rfl
          have hat := (find_key_iff c.outstandingGets hsound.gets.nodup get.1 get.2).mpr h.mem
          have hsame : get.2 = get' := Option.some.inj (hat.symm.trans hget')
          exact hunsent (hsame ▸ h.sent)
        exact List.mem_filter.mpr ⟨h.mem, by simpa using hne⟩
  | purgeOutstandingWrites => exact h.mem
  | interruptForReason reason =>
    rcases c.interrupt_turn reason with ⟨hsame, -⟩ | ⟨hlost, -⟩
    · exact hcore _ hsame
    · show get ∈ (c.turn (.interruptForReason reason)).state.core.outstandingGets
      rw [hlost]
      exact h.mem
  | message =>
    show get ∈ c.received.state.outstandingGets
    unfold received
    split
    · dsimp only
      split
      · exact h.mem
      · next entry hfind =>
        refine mem_responded _ get ?_ entry.2 (h.block entry (List.mem_of_find?_eq_some hfind)) _
        exact h.mem
    · exact h.mem
  | authRevoked => exact h.mem
  | disconnect => exact h.mem
  | _ => exact absurd rfl hlifecycle

/-- It is not sent again. -/
theorem Unanswered.sends_turn (event : ConnectionEvent ρ β θ) :
    ∀ what ∈ (c.turn event).sends, Message.isGet get.1 what = false := by
  intro what hwhat
  rcases c.sends_turn event what hwhat with hasked | hrestored | hplain
  · cases event with
    | getData query onComplete =>
      have hnew : get.1 < c.getCounter := hsound.gets.2 get.1 (List.mem_map_of_mem h.mem)
      have hne : c.getCounter ≠ get.1 := by omega
      rw [List.mem_singleton.mp hasked]
      simp [getWhat, Message.isGet, ResponseBlock.isGet, hne]
    | listen query =>
      rw [List.mem_singleton.mp hasked]
      rfl
    | putData request hash onComplete =>
      rw [List.mem_singleton.mp hasked]
      rfl
    | _ => cases hasked
  · rcases c.mem_restored what hrestored with ⟨listen, -, rfl⟩ | ⟨put, -, rfl⟩ | ⟨get', hmem, hunsent, rfl⟩
    · rfl
    · rfl
    · have hne : get'.1 ≠ get.1 := by
        intro heq
        rw [List.inj_on_of_nodup_map hsound.gets.nodup hmem h.mem heq, h.sent] at hunsent
        cases hunsent
      simp [getWhat, Message.isGet, ResponseBlock.isGet, hne]
  · exact (hplain.2 get.1).2

theorem Unanswered.turn (event : ConnectionEvent ρ β θ) :
    ((c.turn event).state.afterSending (c.turn event).sends).Unanswered get where
  mem := by
    have hnone : (c.turn event).sends.any (Message.isGet get.1) = false := by
      rw [List.any_eq_false]
      intro what hwhat
      simp [h.sends_turn c get hsound event what hwhat]
    have hmark : markGet (c.turn event).sends get = get := by simp [markGet, hnone]
    have hmem := List.mem_map_of_mem (f := markGet (c.turn event).sends) (h.mem_turn c get hsound event)
    rwa [hmark] at hmem
  sent := h.sent
  block := h.block.turn c _ event (h.sends_turn c get hsound event)

end Unanswered

/-! ## Writes that were answered while a listen was not -/

/-- Nothing is listened to, and these blocks are still to be called. -/
structure Unheard (blocks : List (β × String)) : Prop where
  listens : c.listens = []
  block : c.NoBlock ResponseBlock.isListen
  putsToAck : c.putsToAck = blocks

end PersistentConnection

/-- An event that asks for no listen, and does not take the writes back. -/
def ConnectionEvent.isDeaf {ρ β θ : Type} : ConnectionEvent ρ β θ → Bool
  | .listen _ => false
  | .purgeOutstandingWrites => false
  | _ => true

namespace PersistentConnection

variable {ρ β θ : Type} (c : PersistentConnection ρ β θ)

section Unheard

variable (blocks : List (β × String))

theorem putsToAck_putResponse (h : c.unackedListensCount = 0) (index : ℕ) (status : String) :
    (c.putResponse index status).1.putsToAck = c.putsToAck := by
  unfold putResponse
  split
  · rfl
  · dsimp only
    rw [if_pos h]

variable [DecidableEq θ]

theorem unheard_responded (hlistens : c.listens = []) (hcount : c.unackedListensCount = 0)
    (block : ResponseBlock θ) (hblock : block.isListen = false) (status : String) :
    (c.responded block status).state.listens = [] ∧
      (c.responded block status).state.putsToAck = c.putsToAck := by
  unfold responded
  cases block with
  | put index =>
    refine ⟨?_, c.putsToAck_putResponse hcount index status⟩
    dsimp only
    unfold putResponse
    split
    · exact hlistens
    · dsimp only
      split
      · exact hlistens
      · exact hlistens
  | get index =>
    dsimp only
    unfold getResponse
    split
    · exact ⟨hlistens, rfl⟩
    · exact ⟨hlistens, rfl⟩
  | listen query listenSpec => cases hblock
  | auth restoreStateAfterComplete =>
    dsimp only
    split
    · exact ⟨hlistens, rfl⟩
    · exact ⟨hlistens, rfl⟩
  | appCheck =>
    dsimp only
    split
    · exact ⟨hlistens, rfl⟩
    · exact ⟨hlistens, rfl⟩
  | stats => exact ⟨hlistens, rfl⟩

variable (hsound : c.Sound) (h : c.Unheard blocks)

include hsound h

omit [DecidableEq θ] in
theorem Unheard.count : c.unackedListensCount = 0 := by
  rw [hsound.unacked, listensIn, List.countP_eq_zero]
  intro entry hentry
  simp [h.block entry hentry]

theorem Unheard.state_turn (event : ConnectionEvent ρ β θ) (hdeaf : event.isDeaf = true) :
    (c.turn event).state.listens = [] ∧ (c.turn event).state.putsToAck = blocks := by
  have hsame : ∀ c' : PersistentConnection ρ β θ, c'.core = c.core →
      c'.listens = [] ∧ c'.putsToAck = blocks := by
    intro c' hcore
    show c'.core.listens = [] ∧ c'.core.putsToAck = blocks
    rw [hcore]
    exact ⟨h.listens, h.putsToAck⟩
  by_cases hlifecycle : event.isLifecycle = true
  · exact hsame _ (c.core_turn event hlifecycle).1
  cases event with
  | listen query => cases hdeaf
  | purgeOutstandingWrites => cases hdeaf
  | unlisten query =>
    refine ⟨?_, h.putsToAck⟩
    show c.listens.filter _ = []
    rw [h.listens, List.filter_nil]
  | putData request hash onComplete => exact ⟨h.listens, h.putsToAck⟩
  | getData query onComplete => exact ⟨h.listens, h.putsToAck⟩
  | getTimeout index =>
    show (c.getTimeout index).1.listens = [] ∧ (c.getTimeout index).1.putsToAck = blocks
    unfold getTimeout
    dsimp only
    split
    · exact ⟨h.listens, h.putsToAck⟩
    · split
      · exact ⟨h.listens, h.putsToAck⟩
      · exact ⟨h.listens, h.putsToAck⟩
  | interruptForReason reason =>
    rcases c.interrupt_turn reason with ⟨hcore, -⟩ | ⟨hlost, -⟩
    · exact hsame _ hcore
    · show (c.turn (.interruptForReason reason)).state.core.listens = [] ∧
        (c.turn (.interruptForReason reason)).state.core.putsToAck = blocks
      rw [hlost]
      exact ⟨h.listens, h.putsToAck⟩
  | message =>
    show c.received.state.listens = [] ∧ c.received.state.putsToAck = blocks
    unfold received
    split
    · dsimp only
      split
      · exact ⟨h.listens, h.putsToAck⟩
      · next entry hfind =>
        have hblock := h.block entry (List.mem_of_find?_eq_some hfind)
        rw [← h.putsToAck]
        refine unheard_responded _ ?_ ?_ entry.2 hblock _
        · exact h.listens
        · exact h.count c blocks hsound
    · exact ⟨h.listens, h.putsToAck⟩
  | authRevoked => exact ⟨h.listens, h.putsToAck⟩
  | disconnect => exact ⟨h.listens, h.putsToAck⟩
  | _ => exact absurd rfl hlifecycle

omit hsound in
theorem Unheard.sends_turn (event : ConnectionEvent ρ β θ) (hdeaf : event.isDeaf = true) :
    ∀ what ∈ (c.turn event).sends, what.2.any ResponseBlock.isListen = false := by
  intro what hwhat
  rcases c.sends_turn event what hwhat with hasked | hrestored | hplain
  · cases event with
    | listen query => cases hdeaf
    | getData query onComplete =>
      rw [List.mem_singleton.mp hasked]
      rfl
    | putData request hash onComplete =>
      rw [List.mem_singleton.mp hasked]
      rfl
    | _ => cases hasked
  · rcases c.mem_restored what hrestored with ⟨listen, hlisten, -⟩ | ⟨put, -, rfl⟩ | ⟨get, -, -, rfl⟩
    · rw [h.listens] at hlisten
      cases hlisten
    · rfl
    · rfl
  · exact hplain.1

theorem Unheard.turn (event : ConnectionEvent ρ β θ) (hdeaf : event.isDeaf = true) :
    ((c.turn event).state.afterSending (c.turn event).sends).Unheard blocks where
  listens := (h.state_turn c blocks hsound event hdeaf).1
  block := h.block.turn c _ event (h.sends_turn c blocks event hdeaf)
  putsToAck := (h.state_turn c blocks hsound event hdeaf).2

end Unheard

end PersistentConnection

/-! ## In every later run -/

namespace Ledger

variable {ρ β θ : Type} [DecidableEq θ]

/-- A read that was sent and not answered before the connection was lost waits in every later run: it is
not sent again, and its block is not called. -/
theorem sent_get_waits (tr tr' : List (ConnectionAction ρ β θ)) (l l' : Ledger ρ β θ)
    (hr : run step start tr = some l) (hoffline : l.client.isConnected = false) (get : ℕ × OutstandingGet θ β)
    (hget : get ∈ l.client.outstandingGets) (hsent : get.2.sent = true) (hr' : run step l tr' = some l') :
    get ∈ l'.client.outstandingGets := by
  have hsound := sound_run tr l hr
  have hblock : l.client.NoBlock (ResponseBlock.isGet get.1) := by
    intro entry hentry
    rw [hsound.quiet hoffline] at hentry
    cases hentry
  refine (run_invariant step (fun l => l.client.Sound ∧ l.client.Unanswered get) ?_ l
    ⟨hsound, hget, hsent, hblock⟩ tr' l' hr').2.mem
  rintro l action l' ⟨hsound, hget⟩ hstep
  refine ⟨sound_step l l' hsound action hstep, ?_⟩
  cases action with
  | network toServer toClient =>
    cases hstep
    exact { hget with }
  | event event =>
    obtain ⟨-, rfl⟩ := (l.step_event hsound event l').mp hstep
    exact hget.turn l.client get hsound event

/-- A connection that is opened by hand, asked for one thing, lost, and opened again. -/
theorem sent_get_waits_one :
    ∃ l l' : Ledger ℕ ℕ ℕ,
      run step start ([.resumeForReason "waiting_for_open", .retry, .contextFetched 1 (some none), .ready,
        .getData 7 0, .disconnect].map ConnectionAction.event) = some l ∧
      run step l ([.retry, .contextFetched 2 (some none), .ready].map ConnectionAction.event) = some l' ∧
      (1, ⟨7, 0, true⟩) ∈ l'.client.outstandingGets := by
  refine ⟨_, _, rfl, rfl, ?_⟩
  exact sent_get_waits ([.resumeForReason "waiting_for_open", .retry, .contextFetched 1 (some none), .ready,
      .getData 7 0, .disconnect].map ConnectionAction.event)
    ([.retry, .contextFetched 2 (some none), .ready].map ConnectionAction.event) _ _ rfl rfl (1, ⟨7, 0, true⟩)
    (List.mem_singleton.mpr rfl) rfl rfl

/-- A write that was answered while a listen was not, and whose connection was lost before the listen was
answered, is not reported as long as nothing is listened to. -/
theorem putsToAck_wait (tr tr' : List (ConnectionAction ρ β θ)) (l l' : Ledger ρ β θ)
    (hr : run step start tr = some l) (hoffline : l.client.isConnected = false) (hlistens : l.client.listens = [])
    (hdeaf : ∀ event, ConnectionAction.event event ∈ tr' → event.isDeaf = true)
    (hr' : run step l tr' = some l') : l'.client.putsToAck = l.client.putsToAck := by
  have hsound := sound_run tr l hr
  have hblock : l.client.NoBlock ResponseBlock.isListen := by
    intro entry hentry
    rw [hsound.quiet hoffline] at hentry
    cases hentry
  have hdeaf' := always_of_forall step (fun action => ∀ event, action = .event event → event.isDeaf = true) l tr'
    fun action haction event heq => hdeaf event (heq ▸ haction)
  refine (run_induction_of_always step _ l (fun _ l' => l'.client.Sound ∧ l'.client.Unheard l.client.putsToAck)
    ⟨hsound, hlistens, hblock, rfl⟩ ?_ tr' l' hdeaf' hr').2.putsToAck
  rintro - l₁ action l₂ - ⟨hsound₁, hunheard⟩ hdeaf₁ hstep
  refine ⟨sound_step l₁ l₂ hsound₁ action hstep, ?_⟩
  cases action with
  | network toServer toClient =>
    cases hstep
    exact { hunheard with }
  | event event =>
    obtain ⟨-, rfl⟩ := (l₁.step_event hsound₁ event l₂).mp hstep
    exact hunheard.turn l₁.client _ hsound₁ event (hdeaf₁ event rfl)

/-- A put is answered before the listen, the listen is taken back, and the connection is lost. -/
theorem putsToAck_wait_one :
    ∃ l l' : Ledger ℕ ℕ ℕ,
      run step start [.event (.resumeForReason "waiting_for_open"), .event .retry,
        .event (.contextFetched 1 (some none)), .event .ready, .event (.listen 7), .event (.putData 5 none 0),
        .network [] [(3, "ok")], .event .message, .event (.unlisten 7), .event .disconnect] = some l ∧
      run step l ([.retry, .contextFetched 2 (some none), .ready].map ConnectionAction.event) = some l' ∧
      l.client.putsToAck = [(0, "ok")] ∧ l'.client.putsToAck = l.client.putsToAck := by
  refine ⟨_, _, rfl, rfl, rfl, ?_⟩
  exact putsToAck_wait [.event (.resumeForReason "waiting_for_open"), .event .retry,
      .event (.contextFetched 1 (some none)), .event .ready, .event (.listen 7), .event (.putData 5 none 0),
      .network [] [(3, "ok")], .event .message, .event (.unlisten 7), .event .disconnect]
    ([.retry, .contextFetched 2 (some none), .ready].map ConnectionAction.event) _ _ rfl rfl rfl
    (by simp [ConnectionEvent.isDeaf]) rfl

end Ledger

end FlowerGift
