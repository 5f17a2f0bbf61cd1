import FlowerGift.Client.ConnectionTurn

/-!
# What holds of the connection in every run

What is open fits the state of the connection, and numbers are given out once
(`Sound`).  Then nothing that is asserted about it fails: an event throws what
`thrown` says (`perform_of_thrown`) or comes to what `turn` says
(`perform_eq_turn`), and the state after it is sound again.
-/

namespace FlowerGift

open Realtime

/-! ## Numbers that were given out -/

/-- Ascending numbers below the one that is given out next. -/
def GivenOut (numbers : List ℕ) (next : ℕ) : Prop :=
  numbers.Pairwise (· < ·) ∧ ∀ n ∈ numbers, n < next

namespace GivenOut

variable (numbers numbers' : List ℕ) (next : ℕ)

theorem nil : GivenOut [] next := ⟨List.Pairwise.nil, by simp⟩

theorem nodup (h : GivenOut numbers next) : numbers.Nodup := h.1.imp Nat.ne_of_lt

theorem of_sublist (h : GivenOut numbers next) (hsub : numbers'.Sublist numbers) : GivenOut numbers' next :=
  ⟨h.1.sublist hsub, fun n hn => h.2 n (hsub.subset hn)⟩

/-- Numbers from the next one on. -/
theorem append_range' (h : GivenOut numbers next) (k : ℕ) (hsub : numbers'.Sublist (List.range' next k)) :
    GivenOut (numbers ++ numbers') (next + k) := by
  constructor
  · refine List.pairwise_append.mpr ⟨h.1, (List.pairwise_lt_range' (s := next) (n := k)).sublist hsub, ?_⟩
    intro m hm n hn
    have hbelow := h.2 m hm
    have habove := (List.mem_range'_1.mp (hsub.subset hn)).1
    omega
  · intro n hn
    rcases List.mem_append.mp hn with hn | hn
    · have hbelow := h.2 n hn
      omega
    · exact (List.mem_range'_1.mp (hsub.subset hn)).2

theorem snoc (h : GivenOut numbers next) : GivenOut (numbers ++ [next]) (next + 1) :=
  h.append_range' numbers [next] next 1 (by simp)

end GivenOut

section Dictionary

variable {τ : Type} (l : List (ℕ × τ)) (hkeys : (l.map Prod.fst).Nodup)

include hkeys

theorem find_key_iff (index : ℕ) (value : τ) :
    (l.find? fun e => e.1 = index).map Prod.snd = some value ↔ (index, value) ∈ l := by
  constructor
  · intro h
    obtain ⟨e, he, rfl⟩ := Option.map_eq_some_iff.mp h
    have hkey : e.1 = index := by simpa using List.find?_some he
    rw [← hkey]
    exact List.mem_of_find?_eq_some he
  · intro h
    obtain ⟨e, he⟩ := Option.isSome_iff_exists.mp
      (List.find?_isSome.mpr ⟨(index, value), h, by simp⟩ : (l.find? fun e => e.1 = index).isSome)
    have hkey : e.1 = index := by simpa using List.find?_some he
    rw [he, List.inj_on_of_nodup_map hkeys (List.mem_of_find?_eq_some he) h hkey, Option.map_some]

/-- An entry taken out. -/
theorem perm_filter_key (e : ℕ × τ) (he : e ∈ l) : l.Perm (e :: l.filter fun e' => e'.1 ≠ e.1) := by
  induction l with
  | nil => cases he
  | cons a l ih =>
    obtain ⟨hnot, hkeys⟩ := List.nodup_cons.mp hkeys
    rcases List.mem_cons.mp he with rfl | he
    · have hrest : (l.filter fun e' => e'.1 ≠ e.1) = l := by
        rw [List.filter_eq_self]
        intro e' he'
        have hne : e'.1 ≠ e.1 := fun heq => hnot (List.mem_map.mpr ⟨e', he', heq⟩)
        simpa using hne
      rw [List.filter_cons_of_neg (by simp), hrest]
    · have hne : a.1 ≠ e.1 := fun heq => hnot (List.mem_map.mpr ⟨e, he, heq.symm⟩)
      rw [List.filter_cons_of_pos (by simpa using hne)]
      exact ((ih hkeys he).cons a).trans (List.Perm.swap e a _)

end Dictionary

section Messages

variable {ρ β θ : Type}

/-- The listens that wait for a response. -/
def listensIn (entries : List (ℕ × ResponseBlock θ)) : ℕ := entries.countP fun entry => entry.2.isListen

theorem listensIn_numbered (n : ℕ) (ws : List (Message ρ θ)) :
    listensIn ((numbered n ws).filterMap Sent.entry) = ws.countP Message.isListen := by
  induction ws generalizing n with
  | nil => rfl
  | cons what ws ih =>
    obtain ⟨message, block⟩ := what
    cases block with
    | none => exact ih (n + 1)
    | some block =>
      show listensIn ((n, block) :: (numbered (n + 1) ws).filterMap Sent.entry) =
        ((message, some block) :: ws).countP Message.isListen
      rw [List.countP_cons, ← ih (n + 1), listensIn, List.countP_cons]
      rfl

theorem keys_numbered (n : ℕ) (ws : List (Message ρ θ)) :
    (((numbered n ws).filterMap Sent.entry).map Prod.fst).Sublist (List.range' n ws.length) := by
  induction ws generalizing n with
  | nil => exact List.Sublist.slnil
  | cons what ws ih =>
    obtain ⟨message, block⟩ := what
    rw [List.length_cons, List.range'_succ]
    cases block with
    | none => exact (ih (n + 1)).cons n
    | some block => exact (ih (n + 1)).cons_cons n

/-- A block that waits belongs to a message. -/
theorem mem_entries_numbered (n : ℕ) (ws : List (Message ρ θ)) (entry : ℕ × ResponseBlock θ)
    (h : entry ∈ (numbered n ws).filterMap Sent.entry) : ∃ what ∈ ws, what.2 = some entry.2 := by
  induction ws generalizing n with
  | nil => cases h
  | cons what ws ih =>
    obtain ⟨message, block⟩ := what
    cases block with
    | none =>
      obtain ⟨what, hwhat, hblock⟩ := ih (n + 1) h
      exact ⟨what, List.mem_cons_of_mem _ hwhat, hblock⟩
    | some block =>
      rcases List.mem_cons.mp h with rfl | h
      · exact ⟨(message, some block), List.mem_cons_self, rfl⟩
      · obtain ⟨what, hwhat, hblock⟩ := ih (n + 1) h
        exact ⟨what, List.mem_cons_of_mem _ hwhat, hblock⟩

theorem map_markPut_of_not (ws : List (Message ρ θ)) (puts : List (ℕ × OutstandingPut ρ β))
    (h : ∀ put ∈ puts, ws.any (Message.isPut put.1) = false) : puts.map (markPut ws) = puts := by
  conv_rhs => rw [← List.map_id puts]
  apply List.map_congr_left
  intro put hput
  simp [markPut, h put hput]

theorem map_markGet_of_not (ws : List (Message ρ θ)) (gets : List (ℕ × OutstandingGet θ β))
    (h : ∀ get ∈ gets, ws.any (Message.isGet get.1) = false) : gets.map (markGet ws) = gets := by
  conv_rhs => rw [← List.map_id gets]
  apply List.map_congr_left
  intro get hget
  simp [markGet, h get hget]

end Messages

namespace PersistentConnection

variable {ρ β θ : Type} (c : PersistentConnection ρ β θ)

/-! ## What the methods send -/

theorem sendAction_eq (h : c.Online) (what : Message ρ θ) :
    c.sendAction what.1 what.2 = .ok { c with
      realtime := c.realtime.map fun realtime => realtime.push (numbered c.requestNumber [what])
      requestNumber := c.requestNumber + 1
      requestCBHash := c.requestCBHash ++ (numbered c.requestNumber [what]).filterMap Sent.entry } := by
  obtain ⟨toServer, toClient, hr⟩ := h
  obtain ⟨message, block⟩ := what
  unfold sendAction sendRequest
  cases block with
  | none =>
    simp only [hr, if_true]
    rfl
  | some block =>
    simp only [hr, if_true]
    rfl

theorem sendAction_plain (h : c.Online) (what : Message ρ θ) (hplain : Message.Plain what) :
    c.sendAction what.1 what.2 = .ok (c.afterSending [what]) := by
  obtain ⟨hlisten, hother⟩ := hplain
  rw [c.sendAction_eq h what]
  unfold afterSending
  rw [map_markPut_of_not _ _ fun put _ => by simpa using (hother put.1).1,
    map_markGet_of_not _ _ fun get _ => by simpa using (hother get.1).2]
  simp [hlisten]

theorem sendListen_eq (h : c.Online) (listenSpec : θ × ℕ) :
    c.sendListen listenSpec = .ok (c.afterSending [listenWhat listenSpec]) := by
  have hsend := c.sendAction_eq h (listenWhat listenSpec)
  unfold sendListen
  unfold listenWhat at hsend ⊢
  rw [hsend]
  unfold afterSending
  rw [map_markPut_of_not _ _ fun put _ => by simp [Message.isPut, ResponseBlock.isPut],
    map_markGet_of_not _ _ fun get _ => by simp [Message.isGet, ResponseBlock.isGet]]
  rfl

theorem sendPut_eq (h : c.Online) (hstate : c.connectionState = .connected)
    (hkeys : (c.outstandingPuts.map Prod.fst).Nodup) (put : ℕ × OutstandingPut ρ β)
    (hput : put ∈ c.outstandingPuts) :
    c.sendPut put.1 = .ok (c.afterSending [putWhat put]) := by
  have hcan : c.canSendWrites = true := by simp [canSendWrites, hstate]
  have hat : c.putAt put.1 = some put.2 := (find_key_iff _ hkeys put.1 put.2).mpr hput
  have hmark : (c.outstandingPuts.map fun put' =>
        if put'.1 = put.1 then (put'.1, { put'.2 with sent := true }) else put') =
      c.outstandingPuts.map (markPut ([putWhat put] : List (Message ρ θ))) := by
    apply List.map_congr_left
    intro put' _
    by_cases hsame : put'.1 = put.1
    · simp [markPut, putWhat, Message.isPut, ResponseBlock.isPut, hsame]
    · simp [markPut, putWhat, Message.isPut, ResponseBlock.isPut, hsame, Ne.symm hsame]
  have hsend := sendAction_eq { c with
    outstandingPuts := c.outstandingPuts.map (markPut ([putWhat put] : List (Message ρ θ))) } h (putWhat put)
  unfold sendPut
  rw [if_pos hcan, hat]
  dsimp only
  rw [hmark]
  refine hsend.trans ?_
  unfold afterSending
  rw [map_markGet_of_not _ _ fun get _ => by simp [putWhat, Message.isGet, ResponseBlock.isGet]]
  rfl

theorem sendGet_eq (h : c.Online) (hstate : c.connectionState = .connected)
    (hkeys : (c.outstandingGets.map Prod.fst).Nodup) (get : ℕ × OutstandingGet θ β)
    (hget : get ∈ c.outstandingGets) :
    c.sendGet get.1 = .ok (c.afterSending (if get.2.sent then [] else [getWhat get])) := by
  have hcan : c.canSendReads = true := by simp [canSendReads, hstate]
  have hat : c.getAt get.1 = some get.2 := (find_key_iff _ hkeys get.1 get.2).mpr hget
  unfold sendGet
  rw [if_pos hcan, hat]
  dsimp only
  by_cases hsent : get.2.sent = true
  · rw [if_pos hsent, if_pos hsent, afterSending_nil]
  · have hmark : (c.outstandingGets.map fun get' =>
          if get'.1 = get.1 then (get'.1, { get'.2 with sent := true }) else get') =
        c.outstandingGets.map (markGet ([getWhat get] : List (Message ρ θ))) := by
      apply List.map_congr_left
      intro get' _
      by_cases hsame : get'.1 = get.1
      · simp [markGet, getWhat, Message.isGet, ResponseBlock.isGet, hsame]
      · simp [markGet, getWhat, Message.isGet, ResponseBlock.isGet, hsame, Ne.symm hsame]
    have hsend := sendAction_eq { c with
      outstandingGets := c.outstandingGets.map (markGet ([getWhat get] : List (Message ρ θ))) } h (getWhat get)
    rw [if_neg hsent, if_neg hsent, hmark]
    refine hsend.trans ?_
    unfold afterSending
    rw [map_markPut_of_not _ _ fun put _ => by simp [getWhat, Message.isPut, ResponseBlock.isPut]]
    rfl

/-! ## Restoring -/

section Restore

variable (h : c.Online) (us : List (Message ρ θ))

include h

theorem foldlM_sendListen (listens : List (θ × ℕ)) :
    listens.foldlM sendListen (c.afterSending us) = .ok (c.afterSending (us ++ listens.map listenWhat)) := by
  induction listens generalizing us with
  | nil => rw [List.map_nil, List.append_nil]; rfl
  | cons listen listens ih =>
    rw [List.foldlM_cons, sendListen_eq _ (h.afterSending c us), afterSending_append]
    refine (ih (us ++ [listenWhat listen])).trans ?_
    rw [List.map_cons, List.append_assoc, List.singleton_append]

variable (hstate : c.connectionState = .connected)

include hstate

theorem foldlM_sendPut (hkeys : (c.outstandingPuts.map Prod.fst).Nodup) (puts : List (ℕ × OutstandingPut ρ β))
    (hsub : ∀ put ∈ puts, put ∈ c.outstandingPuts) :
    (puts.map Prod.fst).foldlM sendPut (c.afterSending us) = .ok (c.afterSending (us ++ puts.map putWhat)) := by
  induction puts generalizing us with
  | nil => rw [List.map_nil, List.map_nil, List.append_nil]; rfl
  | cons put puts ih =>
    obtain ⟨hput, hrest⟩ := List.forall_mem_cons.mp hsub
    have hmem : markPut us put ∈ (c.afterSending us).outstandingPuts := List.mem_map_of_mem hput
    have hsend := sendPut_eq (c.afterSending us) (h.afterSending c us) hstate
      (by rw [keys_puts_afterSending]; exact hkeys) (markPut us put) hmem
    rw [List.map_cons, List.foldlM_cons]
    rw [show put.1 = (markPut us put).1 from rfl, hsend, afterSending_append]
    refine (ih (us ++ [putWhat put]) hrest).trans ?_
    rw [List.map_cons, List.append_assoc, List.singleton_append]

theorem foldlM_sendGet (hkeys : (c.outstandingGets.map Prod.fst).Nodup) (gets : List (ℕ × OutstandingGet θ β))
    (hsub : ∀ get ∈ gets, get ∈ c.outstandingGets) (hnodup : (gets.map Prod.fst).Nodup)
    (hus : ∀ get ∈ gets, us.any (Message.isGet get.1) = false) :
    (gets.map Prod.fst).foldlM sendGet (c.afterSending us) =
      .ok (c.afterSending (us ++ (gets.filter fun get => !get.2.sent).map getWhat)) := by
  induction gets generalizing us with
  | nil => rw [List.map_nil, List.filter_nil, List.map_nil, List.append_nil]; rfl
  | cons get gets ih =>
    obtain ⟨hget, hrest⟩ := List.forall_mem_cons.mp hsub
    obtain ⟨hhere, hthere⟩ := List.forall_mem_cons.mp hus
    obtain ⟨hnot, hnodup⟩ := List.nodup_cons.mp hnodup
    have hmem : markGet us get ∈ (c.afterSending us).outstandingGets := List.mem_map_of_mem hget
    have hsame : markGet us get = get := by simp [markGet, hhere]
    rw [hsame] at hmem
    have hsend := sendGet_eq (c.afterSending us) (h.afterSending c us) hstate
      (by rw [keys_gets_afterSending]; exact hkeys) get hmem
    rw [List.map_cons, List.foldlM_cons, hsend, afterSending_append]
    refine (ih (us ++ if get.2.sent then [] else [getWhat get]) hrest hnodup ?_).trans ?_
    · intro get' hget'
      have hne : get.1 ≠ get'.1 := fun heq => hnot (List.mem_map.mpr ⟨get', hget', heq.symm⟩)
      rw [List.any_append, hthere get' hget', Bool.false_or]
      split
      · rfl
      · simp [getWhat, Message.isGet, ResponseBlock.isGet, hne]
    · by_cases hsent : get.2.sent = true
      · simp [hsent]
      · simp [hsent]

theorem restoreState_eq (hputs : (c.outstandingPuts.map Prod.fst).Nodup)
    (hgets : (c.outstandingGets.map Prod.fst).Nodup) :
    c.restoreState = .ok (c.afterSending c.restored) := by
  have hlistens := c.foldlM_sendListen h [] c.listens
  rw [afterSending_nil, List.nil_append] at hlistens
  have hps := c.foldlM_sendPut h (c.listens.map listenWhat) hstate hputs c.outstandingPuts fun _ hput => hput
  have hgs := c.foldlM_sendGet h (c.listens.map listenWhat ++ c.outstandingPuts.map putWhat) hstate hgets
    c.outstandingGets (fun _ hget => hget) hgets (by
      intro get _
      simp [listenWhat, putWhat, Message.isGet, ResponseBlock.isGet])
  have hkeysP := c.keys_puts_afterSending (c.listens.map listenWhat)
  have hkeysG := c.keys_gets_afterSending (c.listens.map listenWhat ++ c.outstandingPuts.map putWhat)
  unfold restoreState
  rw [if_pos hstate, hlistens]
  show ((c.afterSending (c.listens.map listenWhat)).outstandingPuts.map Prod.fst).foldlM sendPut _ >>= _ = _
  rw [hkeysP, hps]
  show ((c.afterSending _).outstandingGets.map Prod.fst).foldlM sendGet _ = _
  rw [hkeysG, hgs]
  rfl

end Restore

/-! ## What is sound -/

structure Sound : Prop where
  online : c.isConnected = true → c.Online
  opening : c.connectionState = .connecting → ∃ toServer toClient, c.realtime = some ⟨false, toServer, toClient⟩
  closed : c.connectionState = .disconnected ∨ c.connectionState = .gettingToken → c.realtime = none
  scheduled : c.scheduledRetry = true → c.connectionState = .disconnected
  /-- While the latest attempt runs, no connection was opened. -/
  attempt : c.currentFetchTokenAttempt ∈ c.fetching →
    c.connectionState = .disconnected ∨ c.connectionState = .gettingToken
  fetching : GivenOut c.fetching (c.currentFetchTokenAttempt + 1)
  quiet : c.isConnected = false → c.requestCBHash = []
  numbers : GivenOut (c.requestCBHash.map Prod.fst) c.requestNumber
  unacked : c.unackedListensCount = listensIn c.requestCBHash
  puts : GivenOut (c.outstandingPuts.map Prod.fst) c.putCounter
  gets : GivenOut (c.outstandingGets.map Prod.fst) c.getCounter

theorem sound_init : (init : PersistentConnection ρ β θ).Sound where
  online := by simp [init, isConnected]
  opening := by simp [init]
  closed := fun _ => rfl
  scheduled := by simp [init]
  attempt := by simp [init]
  fetching := GivenOut.nil _
  quiet := fun _ => rfl
  numbers := GivenOut.nil _
  unacked := rfl
  puts := GivenOut.nil _
  gets := GivenOut.nil _

namespace Sound

variable (h : c.Sound)

include h

theorem isConnected_of_ready (toServer : List (ℕ × Request ρ θ)) (toClient : List (ℕ × String))
    (hr : c.realtime = some ⟨true, toServer, toClient⟩) : c.isConnected = true := by
  unfold isConnected
  cases hstate : c.connectionState with
  | disconnected => simp [h.closed (Or.inl hstate)] at hr
  | gettingToken => simp [h.closed (Or.inr hstate)] at hr
  | connecting =>
    obtain ⟨toServer, toClient, hopen⟩ := h.opening hstate
    simp [hopen] at hr
  | authenticating => rfl
  | connected => rfl

theorem connecting_of_opening (toServer : List (ℕ × Request ρ θ)) (toClient : List (ℕ × String))
    (hr : c.realtime = some ⟨false, toServer, toClient⟩) : c.connectionState = .connecting := by
  cases hstate : c.connectionState with
  | disconnected => simp [h.closed (Or.inl hstate)] at hr
  | gettingToken => simp [h.closed (Or.inr hstate)] at hr
  | connecting => rfl
  | authenticating =>
    obtain ⟨toServer, toClient, honline⟩ := h.online (by simp [isConnected, hstate])
    simp [honline] at hr
  | connected =>
    obtain ⟨toServer, toClient, honline⟩ := h.online (by simp [isConnected, hstate])
    simp [honline] at hr

theorem afterSending (ws : List (Message ρ θ)) (hws : ws = [] ∨ c.isConnected = true) :
    (c.afterSending ws).Sound := by
  rcases hws with rfl | hconnected
  · rwa [afterSending_nil]
  · have honline := h.online hconnected
    exact {
      online := fun _ => honline.afterSending c ws
      opening := fun hstate => absurd hconnected (by simp_all [isConnected])
      closed := fun hstate => absurd hconnected (by
        unfold isConnected
        rcases hstate with hstate | hstate
        · simp [show c.connectionState = .disconnected from hstate]
        · simp [show c.connectionState = .gettingToken from hstate])
      scheduled := h.scheduled
      attempt := h.attempt
      fetching := h.fetching
      quiet := fun hoffline => absurd hconnected (by rw [← isConnected_afterSending c ws, hoffline]; simp)
      numbers := by
        have hnew := h.numbers.append_range' _ _ _ ws.length (keys_numbered c.requestNumber ws)
        rwa [← List.map_append] at hnew
      unacked := by
        show c.unackedListensCount + ws.countP Message.isListen =
          listensIn (c.requestCBHash ++ (numbered c.requestNumber ws).filterMap Sent.entry)
        rw [listensIn, List.countP_append, h.unacked, ← listensIn_numbered c.requestNumber ws]
        rfl
      puts := by rw [keys_puts_afterSending]; exact h.puts
      gets := by rw [keys_gets_afterSending]; exact h.gets }

end Sound

/-! ## What the events come to -/

theorem rescheduled_of_disconnected (h : c.connectionState = .disconnected) :
    c.tryScheduleReconnect = .ok c.rescheduled := by
  unfold tryScheduleReconnect rescheduled
  by_cases hreconnect : c.shouldReconnect = true
  · rw [if_pos hreconnect, if_pos h, hreconnect, Bool.or_true]
  · have hnot : c.shouldReconnect = false := by simpa using hreconnect
    rw [if_neg hreconnect, hnot, Bool.or_false]

theorem reconnect_of_disconnected :
    (if c.shouldReconnect && c.connectionState = .disconnected then c.tryScheduleReconnect else .ok c) =
      .ok (if c.connectionState = .disconnected then c.rescheduled else c) := by
  by_cases hstate : c.connectionState = .disconnected
  · by_cases hreconnect : c.shouldReconnect = true
    · rw [if_pos (by simp [hreconnect, hstate]), c.rescheduled_of_disconnected hstate, if_pos hstate]
    · have hnot : c.shouldReconnect = false := by simpa using hreconnect
      rw [if_neg (by simp [hreconnect]), if_pos hstate, rescheduled, hnot, Bool.or_false]
  · rw [if_neg (by simp [hstate]), if_neg hstate]

theorem onDisconnect_eq : c.onDisconnect = .ok (c.lost.state, c.lost.calls) := by
  unfold onDisconnect
  simp only
  rw [rescheduled_of_disconnected _ rfl]
  rfl

theorem closeRealtime_eq (h : c.realtime.isSome = true) : c.closeRealtime = .ok (c.lost.state, c.lost.calls) := by
  obtain ⟨realtime, hr⟩ := Option.isSome_iff_exists.mp h
  unfold closeRealtime
  rw [hr]
  exact c.onDisconnect_eq

theorem restored_afterSending (us : List (Message ρ θ)) (hplain : ∀ what ∈ us, Message.Plain what) :
    (c.afterSending us).restored = c.restored := by
  have hputs : ∀ put ∈ c.outstandingPuts, us.any (Message.isPut put.1) = false := by
    intro put _
    rw [List.any_eq_false]
    intro what hwhat
    simp [((hplain what hwhat).2 put.1).1]
  have hgets : ∀ get ∈ c.outstandingGets, us.any (Message.isGet get.1) = false := by
    intro get _
    rw [List.any_eq_false]
    intro what hwhat
    simp [((hplain what hwhat).2 get.1).2]
  unfold restored afterSending
  rw [map_markPut_of_not us c.outstandingPuts hputs, map_markGet_of_not us c.outstandingGets hgets]

/-- The connection is ready, and nobody has to sign in. -/
theorem restoreAuth_none (h : c.Online) (hstate : c.connectionState = .connecting)
    (hputs : (c.outstandingPuts.map Prod.fst).Nodup) (hgets : (c.outstandingGets.map Prod.fst).Nodup)
    (htoken : c.authToken = none) :
    c.restoreAuth = .ok (afterSending { c with connectionState := .connected } c.restored) := by
  unfold restoreAuth
  rw [if_pos hstate, if_pos (by rw [htoken]; rfl)]
  exact restoreState_eq { c with connectionState := .connected } h rfl hputs hgets

theorem restoreAuth_some (h : c.Online) (hstate : c.connectionState = .connecting) (credential : String)
    (htoken : c.authToken = some credential) :
    c.restoreAuth = .ok (afterSending { c with connectionState := .authenticating }
      [(.auth credential, some (.auth true))]) := by
  unfold restoreAuth sendAuth
  rw [if_pos hstate, if_neg (by rw [htoken]; exact Bool.false_ne_true),
    if_pos (by simp [isConnected])]
  split
  · next hnone => exact absurd (htoken.symm.trans hnone) (by simp)
  · next credential' hsome =>
    obtain rfl : credential = credential' := Option.some.inj (htoken.symm.trans hsome)
    exact sendAction_plain { c with connectionState := .authenticating } h (.auth credential, some (.auth true))
      ⟨rfl, fun _ => ⟨rfl, rfl⟩⟩

variable [DecidableEq θ]

/-- An event that comes to what `turn` says. -/
def Performs (event : ConnectionEvent ρ β θ) : Prop :=
  c.perform event = .ok ((c.turn event).state.afterSending (c.turn event).sends, (c.turn event).calls)

theorem perform_interruptForReason (reason : String) : c.Performs (.interruptForReason reason) := by
  unfold Performs perform interruptForReason turn
  simp only
  cases hr : c.realtime with
  | none =>
    simp only [Option.isSome_none, Bool.false_eq_true, if_false, afterSending_nil]
  | some realtime =>
    have hclose := closeRealtime_eq { c with interruptReasons := c.interruptReasons.insert reason }
      (by simp [hr])
    rw [hr] at hclose
    simp only [Option.isSome_some, if_true]
    rw [hclose, lost, afterSending_nil]

theorem perform_resumeForReason (reason : String) : c.Performs (.resumeForReason reason) := by
  unfold Performs perform resumeForReason turn
  simp only [afterSending_nil]
  exact congrArg (Except.map _) (reconnect_of_disconnected _)

theorem perform_reachable : c.Performs .reachable := by
  unfold Performs perform reachable turn
  simp only [afterSending_nil]
  by_cases hstate : c.connectionState = .disconnected
  · rw [if_pos hstate, if_pos hstate, c.rescheduled_of_disconnected hstate]
    rfl
  · rw [if_neg hstate, if_neg hstate]
    rfl

theorem perform_of_thrown (event : ConnectionEvent ρ β θ) (e : NSException) (h : c.thrown event = some e) :
    c.perform event = .error e := by
  cases event with
  | listen query =>
    by_cases hq : query ∈ c.listens.map Prod.fst
    · have hsome : c.thrown (.listen query) = some _ := if_pos hq
      obtain rfl := Option.some.inj (hsome.symm.trans h)
      have hlisten : c.listen query = .error _ := if_pos hq
      show (c.listen query).map (fun self => (self, [])) = _
      rw [hlisten]
      rfl
    · have hnone : c.thrown (.listen query) = none := if_neg hq
      rw [hnone] at h
      cases h
  | serverError reason =>
    obtain rfl := Option.some.inj h
    rfl
  | _ => cases h

section Events

variable (h : c.Sound)

include h

theorem perform_listen (query : θ) (hq : query ∉ c.listens.map Prod.fst) : c.Performs (.listen query) := by
  unfold Performs perform listen turn
  simp only
  rw [if_neg hq]
  by_cases hconnected : c.isConnected = true
  · rw [if_pos hconnected]
    have hsend := sendListen_eq { c with
      listens := c.listens ++ [(query, c.listenSpecs)]
      listenSpecs := c.listenSpecs + 1 } (h.online hconnected) (query, c.listenSpecs)
    rw [if_pos (by exact hconnected), hsend]
    rfl
  · rw [if_neg hconnected, if_neg (by exact hconnected), afterSending_nil]
    rfl

theorem perform_unlisten (query : θ) : c.Performs (.unlisten query) := by
  unfold Performs perform unlisten turn
  simp only
  by_cases hsends : query ∈ c.listens.map Prod.fst ∧ c.isConnected = true
  · have hsend := sendAction_plain { c with listens := c.listens.filter fun listen => listen.1 ≠ query }
      (h.online hsends.2) (.unlisten query, none) ⟨rfl, fun _ => ⟨rfl, rfl⟩⟩
    rw [if_pos hsends, if_pos (by exact hsends)]
    simp only at hsend
    rw [hsend]
    rfl
  · rw [if_neg hsends, if_neg (by exact hsends), afterSending_nil]
    rfl

theorem perform_putData (request : ρ) (hash : Option String) (onComplete : β) :
    c.Performs (.putData request hash onComplete) := by
  unfold Performs perform putData turn
  simp only
  by_cases hcan : c.canSendWrites = true
  · have hstate : c.connectionState = .connected := by simpa [canSendWrites] using hcan
    have hconnected : c.isConnected = true := by simp [isConnected, hstate]
    have hkeys : ((c.outstandingPuts ++ [(c.putCounter, (⟨request, hash, onComplete, false⟩ :
        OutstandingPut ρ β))]).map Prod.fst).Nodup := by
      rw [List.map_append]
      exact (h.puts.snoc).nodup
    have hsend := sendPut_eq { c with
      putCounter := c.putCounter + 1
      outstandingPuts := c.outstandingPuts ++ [(c.putCounter, ⟨request, hash, onComplete, false⟩)] }
      (h.online hconnected) hstate hkeys (c.putCounter, ⟨request, hash, onComplete, false⟩) (by simp)
    rw [if_pos hcan, if_pos (by exact hcan), hsend]
    rfl
  · rw [if_neg hcan, if_neg (by exact hcan), afterSending_nil]
    rfl

theorem perform_getData (query : θ) (onComplete : β) : c.Performs (.getData query onComplete) := by
  unfold Performs perform getData turn
  simp only
  by_cases hconnected : c.isConnected = true
  · have hnot : ¬(!c.isConnected) = true := by simpa using hconnected
    by_cases hcan : c.canSendReads = true
    · have hstate : c.connectionState = .connected := by simpa [canSendReads] using hcan
      have hkeys : ((c.outstandingGets ++ [(c.getCounter, (⟨query, onComplete, false⟩ :
          OutstandingGet θ β))]).map Prod.fst).Nodup := by
        rw [List.map_append]
        exact (h.gets.snoc).nodup
      have hsend := sendGet_eq { c with
        getCounter := c.getCounter + 1
        outstandingGets := c.outstandingGets ++ [(c.getCounter, ⟨query, onComplete, false⟩)] }
        (h.online hconnected) hstate hkeys (c.getCounter, ⟨query, onComplete, false⟩) (by simp)
      rw [if_pos hconnected, if_pos hcan, if_neg (by exact hnot),
        if_pos (by exact hcan), hsend]
      rfl
    · rw [if_pos hconnected, if_neg hcan, if_neg (by exact hnot),
        if_neg (by exact hcan), afterSending_nil]
      rfl
  · have hcan : ¬ c.canSendReads = true := by
      intro hcan
      have hstate : c.connectionState = .connected := by simpa [canSendReads] using hcan
      exact hconnected (by simp [isConnected, hstate])
    have hoffline : (!c.isConnected) = true := by simpa using hconnected
    rw [if_neg hconnected, if_neg hcan, if_pos (by exact hoffline), afterSending_nil]
    rfl

theorem perform_refreshAuthToken (token : Option String) : c.Performs (.refreshAuthToken token) := by
  unfold Performs perform refreshAuthToken turn
  simp only
  by_cases hconnected : c.isConnected = true
  · have honline := h.online hconnected
    rw [if_pos hconnected, if_pos (by exact hconnected)]
    cases token with
    | none =>
      have hsend := sendAction_plain { c with authToken := none } honline (.unauth, none)
        ⟨rfl, fun _ => ⟨rfl, rfl⟩⟩
      simp only at hsend
      simp only [Option.isSome_none, Bool.false_eq_true, if_false]
      rw [hsend]
      rfl
    | some credential =>
      have hsend := sendAction_plain { c with authToken := some credential } honline
        (.auth credential, some (.auth false)) ⟨rfl, fun _ => ⟨rfl, rfl⟩⟩
      simp only at hsend
      simp only [Option.isSome_some, if_true]
      unfold sendAuth
      rw [if_pos (by exact hconnected)]
      simp only
      rw [hsend]
      rfl
  · rw [if_neg hconnected, if_neg (by exact hconnected), afterSending_nil]
    rfl

theorem perform_refreshAppCheckToken (token : String) : c.Performs (.refreshAppCheckToken token) := by
  unfold Performs perform refreshAppCheckToken turn
  simp only
  by_cases hsilent : (!c.isConnected || token.isEmpty) = true
  · rw [if_pos hsilent, if_pos hsilent, afterSending_nil]
    rfl
  · have hconnected : c.isConnected = true := by simp_all
    have hsend := sendAction_plain c (h.online hconnected) (.appCheck token, some .appCheck)
      ⟨rfl, fun _ => ⟨rfl, rfl⟩⟩
    simp only at hsend
    rw [if_neg hsilent, if_neg hsilent, hsend]
    rfl

theorem perform_retry (hretry : c.scheduledRetry = true) : c.Performs .retry := by
  unfold Performs perform retry turn
  simp only [afterSending_nil]
  rw [if_pos (h.scheduled hretry)]
  rfl

theorem perform_contextFetched (attempt : ℕ) (context : Option (Option String)) (hfetch : attempt ∈ c.fetching) :
    c.Performs (.contextFetched attempt context) := by
  unfold Performs perform contextFetched turn
  simp only
  by_cases hlatest : attempt = c.currentFetchTokenAttempt
  · rw [if_pos hlatest, if_pos hlatest]
    have hwaiting := h.attempt (hlatest ▸ hfetch)
    cases context with
    | none =>
      simp only [afterSending_nil]
      rw [rescheduled_of_disconnected _ rfl]
      rfl
    | some authToken =>
      simp only
      by_cases hstate : c.connectionState = .gettingToken
      · rw [if_pos hstate, if_pos hstate, afterSending_nil]
        unfold openNetworkConnection
        rw [if_pos (by exact hstate)]
        rfl
      · have hstate' : c.connectionState = .disconnected := hwaiting.resolve_right hstate
        rw [if_neg hstate, if_neg hstate, if_pos hstate', afterSending_nil]
        rfl
  · rw [if_neg hlatest, if_neg hlatest, afterSending_nil]
    rfl

end Events

theorem respond_eq (honline : c.Online) (hputs : (c.outstandingPuts.map Prod.fst).Nodup)
    (hgets : (c.outstandingGets.map Prod.fst).Nodup) (block : ResponseBlock θ) (status : String) :
    c.respond block status = .ok ((c.responded block status).state.afterSending (c.responded block status).sends,
      (c.responded block status).calls) := by
  have hopen : c.realtime.isSome = true := by
    obtain ⟨toServer, toClient, hr⟩ := honline
    rw [hr, Option.isSome_some]
  unfold respond responded
  cases block with
  | put index => simp only [afterSending_nil]
  | get index => simp only [afterSending_nil]
  | listen query listenSpec => simp only [afterSending_nil]
  | stats => simp only [afterSending_nil]
  | appCheck =>
    unfold appCheckResponse
    simp only
    by_cases hok : status = "ok"
    · rw [if_pos hok, if_pos hok, afterSending_nil]
    · rw [if_neg hok, if_neg hok, closeRealtime_eq { c with authToken := none } hopen, lost, afterSending_nil]
  | auth restoreStateAfterComplete =>
    unfold authResponse
    simp only
    by_cases hok : status = "ok"
    · rw [if_pos hok, if_pos hok]
      cases restoreStateAfterComplete with
      | false => simp only [Bool.false_eq_true, if_false, afterSending_nil]
      | true =>
        rw [if_pos rfl, if_pos rfl, restoreState_eq { c with connectionState := .connected } honline rfl hputs hgets]
        rfl
    · rw [if_neg hok, if_neg hok,
        closeRealtime_eq { c with connectionState := .connected, authToken := none } hopen]
      show _ = Except.ok ((lost { c with authToken := none }).state.afterSending [], _)
      rw [afterSending_nil]
      rfl

section Responses

variable (h : c.Sound)

include h

theorem perform_ready (hready : c.enabled .ready = true) : c.Performs .ready := by
  obtain ⟨⟨ready, toServer, toClient⟩, hr, hnot⟩ := (Option.any_eq_true _ _).mp hready
  obtain rfl : ready = false := by simpa using hnot
  have hstate := h.connecting_of_opening c toServer toClient hr
  let opened : PersistentConnection ρ β θ := { c with realtime := some ⟨true, toServer, toClient⟩ }
  have honline : opened.Online := ⟨toServer, toClient, rfl⟩
  -- whatever was sent before
  have hthen : ∀ stats : List (Message ρ θ), (∀ what ∈ stats, Message.Plain what) →
      (do
        let self ← (opened.afterSending stats).restoreAuth
        Except.ok { self with firstConnection := false }) =
      .ok (afterSending { opened with
        firstConnection := false
        connectionState := if c.authToken.isNone then .connected else .authenticating }
        (stats ++ c.greeting)) := by
    intro stats hplain
    have hlater := honline.afterSending opened stats
    rcases Option.eq_none_or_eq_some c.authToken with htoken | ⟨credential, htoken⟩
    · have hgreeting : c.greeting = c.restored := by rw [greeting, htoken]
      rw [restoreAuth_none _ hlater hstate (by rw [keys_puts_afterSending]; exact h.puts.nodup)
        (by rw [keys_gets_afterSending]; exact h.gets.nodup) htoken, opened.restored_afterSending stats hplain,
        hgreeting, ← afterSending_append, if_pos (by rw [htoken]; rfl)]
      rfl
    · have hgreeting : c.greeting = [(.auth credential, some (.auth true))] := by rw [greeting, htoken]
      rw [restoreAuth_some _ hlater hstate credential htoken, hgreeting, ← afterSending_append,
        if_neg (by rw [htoken]; exact Bool.false_ne_true)]
      rfl
  unfold Performs perform onReady turn
  simp only [hr, Option.map_some]
  by_cases hfirst : c.firstConnection = true
  · have hplain : Message.Plain ((.stats, some .stats) : Message ρ θ) := ⟨rfl, fun _ => ⟨rfl, rfl⟩⟩
    have hgo := hthen [(.stats, some .stats)] (by simpa using hplain)
    have hstats := opened.sendAction_plain honline (.stats, some .stats) hplain
    rw [if_pos hfirst, if_pos hfirst, hstats]
    exact congrArg (Except.map fun self => (self, [])) hgo
  · have hgo := hthen [] (by simp)
    rw [afterSending_nil] at hgo
    rw [if_neg hfirst, if_neg hfirst]
    exact congrArg (Except.map fun self => (self, [])) hgo

theorem perform_message (hmessage : c.enabled .message = true) : c.Performs .message := by
  obtain ⟨⟨ready, toServer, toClient⟩, hr, hnonempty⟩ := (Option.any_eq_true _ _).mp hmessage
  cases toClient with
  | nil => simp at hnonempty
  | cons response toClient =>
    obtain ⟨rn, status⟩ := response
    unfold Performs perform receive turn received
    simp only [hr]
    unfold onDataMessage
    simp only
    cases hfind : c.requestCBHash.find? fun entry => entry.1 = rn with
    | none => simp only [afterSending_nil]
    | some entry =>
      have hconnected : c.isConnected = true := by
        by_contra hoffline
        rw [h.quiet (by simpa using hoffline)] at hfind
        cases hfind
      obtain ⟨toServer', toClient', hready⟩ := h.online hconnected
      obtain rfl : ready = true := by
        rw [hr] at hready
        cases hready
        rfl
      exact respond_eq { c with
        realtime := some ⟨true, toServer, toClient⟩
        requestCBHash := c.requestCBHash.filter fun entry => entry.1 ≠ rn } ⟨toServer, toClient, rfl⟩
        h.puts.nodup h.gets.nodup entry.2 status

/-- In a sound state an event that throws nothing comes to what `turn` says. -/
theorem perform_eq_turn (event : ConnectionEvent ρ β θ) (henabled : c.enabled event = true)
    (hthrown : c.thrown event = none) : c.Performs event := by
  cases event with
  | listen query =>
    have hq : query ∉ c.listens.map Prod.fst := by
      intro hq
      have hsome : c.thrown (.listen query) = some _ := if_pos hq
      rw [hsome] at hthrown
      cases hthrown
    exact c.perform_listen h query hq
  | serverError reason => cases hthrown
  | unlisten query => exact c.perform_unlisten h query
  | putData request hash onComplete => exact c.perform_putData h request hash onComplete
  | getData query onComplete => exact c.perform_getData h query onComplete
  | getTimeout index => rw [Performs, turn, afterSending_nil, perform]
  | purgeOutstandingWrites => rw [Performs, turn, afterSending_nil, perform]
  | refreshAuthToken token => exact c.perform_refreshAuthToken h token
  | refreshAppCheckToken token => exact c.perform_refreshAppCheckToken h token
  | interruptForReason reason => exact c.perform_interruptForReason reason
  | resumeForReason reason => exact c.perform_resumeForReason reason
  | reachable => exact c.perform_reachable
  | retry => exact c.perform_retry h henabled
  | contextFetched attempt context =>
    exact c.perform_contextFetched h attempt context (by simpa [enabled] using henabled)
  | ready => exact c.perform_ready h henabled
  | message => exact c.perform_message h henabled
  | authRevoked =>
    obtain ⟨realtime, hr, -⟩ := (Option.any_eq_true _ _).mp henabled
    rw [Performs, perform, onAuthRevoked, closeRealtime_eq _ (by rw [hr]; rfl), turn, lost, afterSending_nil]
  | disconnect => rw [Performs, perform, onDisconnect_eq, turn, lost, afterSending_nil]

end Responses

end PersistentConnection

end FlowerGift
