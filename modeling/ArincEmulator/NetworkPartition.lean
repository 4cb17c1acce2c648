import ArincEmulator.ChannelOwnership
import ArincEmulator.QueuePort

/- The network partition, which moves the channels between modules in a process of its
   own. The module manager sends a token to its configuration queue, continues it, and
   stops it at the end of the window; the process takes a token and moves its channels,
   those of queues before those of samples, and then waits for the next token. A stop can
   come between any two moves, and a token that finds ten in the queue is lost.

   What is proved, for any order of these steps:
     1. `passes_for_tokens`: the channels are moved in whole passes in their order, one
        for each token taken, but for what is left of the last; the tokens taken,
        waiting and lost are the windows opened; and a window's token is lost just when
        ten wait.
     2. `pass_every_window_iff`: at the end of every window there has been one pass for
        each window just when every window's end finds the process waiting and no token
        in the queue. -/
namespace Arinc.NetworkPartition
open Memory Runs SamplingPacket QueuePort ChannelWiring

/-! ## The two parties -/

/-- `NETWORK_PARTITION_PETRI_NET_TOKEN`: "GO" in its four bytes. -/
def token : List Byte := [71, 79, 0, 0]

/-- What `strcmp` compares of such an array. -/
def cString (msgPtr : Nat → Byte) : List Byte := (read msgPtr 0 4).takeWhile (· != 0)

/-- The configuration queue as the module manager has opened it. -/
def configurationQueue (mq : PosixQueue) : MessageQueue :=
  ⟨4, 10, .portSourceDest, true, fun _ => 0, mq⟩

/-- The queuing port `QUEUING_PORT_ID` of the process, over the same queue. -/
def configurationPort (mq : PosixQueue) : MessageQueue :=
  ⟨4, 10, .portDest, true, fun _ => 0, mq⟩

/-- `QUEUEING_CHANNELS` and `SAMPLING_CHANNELS`: those the partition is the source of, and
    behind them those it receives from other modules. -/
def channelsOf (kind : Kind) (p : Partition) : List String :=
  p.channelSourceVector kind ++ p.channelInterModuleDstVector kind

/-- The channels one round of `FireChannels` moves, in its order: a name without a
    channel in the map is passed over. -/
def firedChannels (m : ModuleManager) (p : Partition) : List (Kind × String) :=
  ([Kind.queueing, Kind.sampling].flatMap fun kind =>
    (channelsOf kind p).map fun name => (kind, name)).filter fun channel =>
      (m.mapOfChannels channel.1 channel.2).isSome

/-- The queue, whether the process is continued, its `NETWORK_PARTITION_PETRI_NET_TOKEN_READ`
    and the channels left in its round; and what has been: the windows opened, the tokens
    lost, the rounds begun and the channels moved. -/
structure State where
  mq : PosixQueue
  running : Bool
  tokenRead : Nat → Byte
  left : List (Kind × String)
  opened : Nat
  lost : Nat
  begun : Nat
  moved : List (Kind × String)

/-- The module manager opens and closes a window in RUN_PARTITION; the process receives
    and moves. -/
inductive Op where
  | openWindow (now : ClockTime)
  | closeWindow
  | receive (now : ClockTime)
  | move

theorem noTokens_within : ([] : List (List Byte)).length ≤ 10 := Nat.zero_le 10

theorem noTokens_fit : ∀ m ∈ ([] : List (List Byte)), m.length ≤ 4 := List.forall_mem_nil _

/-- The queue is created empty, and the process has stopped itself. -/
def start : State :=
  ⟨⟨⟨10, [], noTokens_within⟩, 4, noTokens_fit⟩, false, fun _ => 0, [], 0, 0, 0, []⟩

section
variable (m : ModuleManager) (p : Partition)

/-- One step. The process steps only while it is continued, and receives only at the end
    of a round; with no token to take it blocks. -/
def step (s : State) : Op → Option State
  | .openWindow now =>
    if s.running then none
    else
      ((configurationQueue s.mq).sendMessage now (ofList token 0) token.length 0).map
        fun (code, q) => { s with
          mq := q.mq
          running := true
          opened := s.opened + 1
          lost := if code = .noError then s.lost else s.lost + 1 }
  | .closeWindow => if s.running then some { s with running := false } else none
  | .receive now =>
    if s.running ∧ s.left = [] then
      ((configurationPort s.mq).receiveMessage now s.tokenRead infiniteTimeValue).map fun r =>
        if cString (ofList token 0) = cString r.msgPtr then
          { s with
            mq := r.queue.mq
            tokenRead := r.msgPtr
            left := firedChannels m p
            begun := s.begun + 1 }
        else { s with mq := r.queue.mq, tokenRead := r.msgPtr }
    else none
  | .move =>
    if s.running then
      match s.left with
      | [] => none
      | channel :: left => some { s with left, moved := s.moved ++ [channel] }
    else none

end

/-- The tokens in the queue. -/
def State.waiting (s : State) : Nat := s.mq.elements.length

/-! ## The queue -/

/-- The queue as both have opened it, with tokens in it. -/
structure Tokens (mq : PosixQueue) : Prop where
  msgsize : mq.msgsize = 4
  capacity : mq.capacity = 10
  tokens : ∀ msg ∈ mq.elements, msg = token

theorem send_cases {mq : PosixQueue} (h : Tokens mq) (now : ClockTime) :
    (mq.elements.length < 10 ∧ ∃ mq' : PosixQueue,
      (configurationQueue mq).sendMessage now (ofList token 0) token.length 0 =
        some (.noError, configurationQueue mq') ∧
      Tokens mq' ∧ mq'.elements.length = mq.elements.length + 1) ∨
    (mq.elements.length = 10 ∧ ∃ code, code ≠ .noError ∧
      (configurationQueue mq).sendMessage now (ofList token 0) token.length 0 =
        some (code, configurationQueue mq)) := by
  -- The token fits, so it is refused just when the queue is full.
  have hadmits : (configurationQueue mq).place.Admits token ↔ mq.elements.length < 10 := by
    have hadmissible : (configurationQueue mq).place.admissible token = true :=
      MessageQueue.admissible_iff.mpr ⟨rfl, nofun, Int.le_refl 4, Nat.le_of_eq h.msgsize.symm⟩
    have hlimit : (configurationQueue mq).place.limit = 10 := by
      show min (Int.toNat 10) mq.capacity = 10
      rw [h.capacity]
      rfl
    rw [Place.Admits, hlimit]
    exact and_iff_right hadmissible
  obtain ⟨hroom, mq', hsend, hmsgsize, hput⟩ | ⟨hfull, code, hcode, hsend⟩ :=
    MessageQueue.sendMessage_spec (configurationQueue mq) now (read_ofList token 0)
      (by decide : token.length < 2 ^ 64)
  · obtain ⟨hcapacity, helements⟩ := Fifo.put_elements hput
    have helements : mq'.elements = mq.elements ++ [token] := helements
    refine Or.inl ⟨hadmits.mp hroom, mq', hsend, ⟨hmsgsize.trans h.msgsize,
      hcapacity.trans h.capacity, ?_⟩, ?_⟩
    · rw [helements]
      exact List.forall_mem_append.mpr ⟨h.tokens, List.forall_mem_singleton.mpr rfl⟩
    · rw [helements, List.length_append, List.length_singleton]
  · have hwithin := mq.within
    rw [hadmits] at hfull
    have hcapacity := h.capacity
    exact Or.inr ⟨by omega, code, hcode, hsend⟩

theorem receive_empty {q : MessageQueue} (hq : q.Gives) (now : ClockTime) (msgPtr : Nat → Byte)
    (hempty : q.mq.elements = []) : q.receiveMessage now msgPtr infiniteTimeValue = none := by
  have hready : ¬ q.readyOrNot = false := by simp [hq.ready]
  have htake : q.mq.take = none := Fifo.take_eq_none_iff.mpr hempty
  have hwaits : q.mq.mqReceive (MessageQueue.sizeT q.qMaxMessageSize)
      (MessageQueue.absoluteTime now infiniteTimeValue) = .waits := by
    rw [PosixQueue.mqReceive, if_neg (Nat.not_lt.mpr hq.size)]
    split
    · rfl
    · rename_i msg r hsome
      cases htake.symm.trans hsome
  rw [MessageQueue.receiveMessage, if_neg hready, if_neg hq.direction, if_neg (by decide),
    if_neg (fun h => absurd h.1 (by decide)), hwaits]

theorem receive_cases {mq : PosixQueue} (h : Tokens mq) (now : ClockTime) (msgPtr : Nat → Byte)
    {r : MessageQueue.Received}
    (hr : (configurationPort mq).receiveMessage now msgPtr infiniteTimeValue = some r) :
    cString (ofList token 0) = cString r.msgPtr ∧ Tokens r.queue.mq ∧
      mq.elements.length = r.queue.mq.elements.length + 1 := by
  have hgives : (configurationPort mq).Gives :=
    ⟨rfl, nofun, Nat.le_of_eq (h.msgsize.trans (by decide : 4 = MessageQueue.sizeT 4))⟩
  cases helements : mq.elements with
  | nil =>
    have hnone : (configurationPort mq).receiveMessage now msgPtr infiniteTimeValue = none :=
      receive_empty hgives now msgPtr helements
    rw [hnone] at hr
    cases hr
  | cons msg rest =>
    obtain ⟨msgPtr', internalBuffer, mq', hreceive, hread, hmsgsize, hcapacity, hrest⟩ :=
      hgives.receiveMessage now msgPtr (by decide : infiniteTimeValue ≤ maxTimeOut) helements
    obtain rfl := Option.some.inj (hreceive.symm.trans hr)
    have htokens : ∀ n ∈ msg :: rest, n = token := helements ▸ h.tokens
    obtain ⟨rfl, hothers⟩ := List.forall_mem_cons.mp htokens
    refine ⟨?_, ⟨hmsgsize.trans h.msgsize, hcapacity.trans h.capacity, ?_⟩, ?_⟩
    · have hread : read msgPtr' 0 4 = token := hread
      rw [cString, cString, hread]
      rfl
    · rw [hrest]
      exact hothers
    · rw [List.length_cons, hrest]

/-! ## Steps -/

section
variable {m : ModuleManager} {p : Partition} {s t : State} {op : Op}

/-- So many whole rounds. -/
def rounds (m : ModuleManager) (p : Partition) (n : Nat) : List (Kind × String) :=
  (List.replicate n (firedChannels m p)).flatten

theorem rounds_succ (n : Nat) : rounds m p (n + 1) = rounds m p n ++ firedChannels m p := by
  rw [rounds, List.replicate_succ', List.flatten_append, List.flatten_singleton, rounds]

theorem length_rounds (n : Nat) : (rounds m p n).length = n * (firedChannels m p).length := by
  rw [rounds, List.length_flatten, List.map_replicate, List.sum_replicate_nat]

/-- The tokens and the moves add up. -/
structure Accounted (m : ModuleManager) (p : Partition) (s : State) : Prop where
  tokens : Tokens s.mq
  moves : s.moved ++ s.left = rounds m p s.begun
  windows : s.begun + s.waiting + s.lost = s.opened

theorem start_accounted : Accounted m p start where
  tokens := ⟨rfl, rfl, List.forall_mem_nil _⟩
  moves := rfl
  windows := rfl

/-- What a step can do: a window's token is put or lost; a window ends; a token is taken
    at the end of a round; a channel is moved. -/
theorem step_cases (hs : Accounted m p s) (h : step m p s op = some t) :
    (s.running = false ∧ t.running = true ∧ Tokens t.mq ∧ t.left = s.left ∧ t.moved = s.moved ∧
      t.begun = s.begun ∧ t.opened = s.opened + 1 ∧
      (s.waiting < 10 ∧ t.waiting = s.waiting + 1 ∧ t.lost = s.lost ∨
        s.waiting = 10 ∧ t.waiting = s.waiting ∧ t.lost = s.lost + 1) ∧ op ≠ .closeWindow) ∨
    (op = .closeWindow ∧ s.running = true ∧ t = { s with running := false }) ∨
    (s.running = true ∧ t.running = true ∧ Tokens t.mq ∧ s.left = [] ∧
      t.left = firedChannels m p ∧ t.moved = s.moved ∧ t.begun = s.begun + 1 ∧
      t.opened = s.opened ∧ s.waiting = t.waiting + 1 ∧ t.lost = s.lost ∧ op ≠ .closeWindow) ∨
    (s.running = true ∧ op ≠ .closeWindow ∧ ∃ channel left, s.left = channel :: left ∧
      t = { s with left, moved := s.moved ++ [channel] }) := by
  cases op with
  | openWindow now =>
    simp only [step] at h
    split at h
    · cases h
    · rename_i hstopped
      have hstopped : s.running = false := by simpa using hstopped
      obtain ⟨⟨code, q⟩, hsend, rfl⟩ := Option.map_eq_some_iff.mp h
      obtain ⟨hroom, mq', hput, htokens, hlength⟩ | ⟨hfull, code', hcode, hlost⟩ :=
        send_cases hs.tokens now
      · obtain ⟨rfl, rfl⟩ := Prod.mk.inj (Option.some.inj (hsend.symm.trans hput))
        exact Or.inl ⟨hstopped, rfl, htokens, rfl, rfl, rfl, rfl,
          Or.inl ⟨hroom, hlength, rfl⟩, nofun⟩
      · obtain ⟨rfl, rfl⟩ := Prod.mk.inj (Option.some.inj (hsend.symm.trans hlost))
        exact Or.inl ⟨hstopped, rfl, hs.tokens, rfl, rfl, rfl, rfl,
          Or.inr ⟨hfull, rfl, if_neg hcode⟩, nofun⟩
  | closeWindow =>
    obtain ⟨hrunning, heq⟩ := Option.ite_none_right_eq_some.mp h
    exact Or.inr (Or.inl ⟨rfl, hrunning, (Option.some.inj heq).symm⟩)
  -- The receive waits for a token without a time-out, and then a whole round is to be done.
  | receive now =>
    obtain ⟨⟨hrunning, hleft⟩, hmap⟩ := Option.ite_none_right_eq_some.mp h
    obtain ⟨r, hreceive, heq⟩ := Option.map_eq_some_iff.mp hmap
    obtain ⟨htoken, htokens, hlength⟩ := receive_cases hs.tokens now s.tokenRead hreceive
    rw [if_pos htoken] at heq
    subst heq
    exact Or.inr (Or.inr (Or.inl ⟨hrunning, hrunning, htokens, hleft, rfl, rfl, rfl, rfl, hlength,
      rfl, nofun⟩))
  | move =>
    obtain ⟨hrunning, hmove⟩ := Option.ite_none_right_eq_some.mp h
    cases hleft : s.left with
    | nil =>
      rw [hleft] at hmove
      cases hmove
    | cons channel left =>
      rw [hleft] at hmove
      exact Or.inr (Or.inr (Or.inr ⟨hrunning, nofun, channel, left, rfl,
        (Option.some.inj hmove).symm⟩))

theorem step_accounted (hs : Accounted m p s) (h : step m p s op = some t) :
    Accounted m p t := by
  have hwindows := hs.windows
  obtain ⟨-, -, htokens, hleft, hmoved, hbegun, hopened, htoken, -⟩ | ⟨-, -, rfl⟩ |
      ⟨-, -, htokens, hnone, hleft, hmoved, hbegun, hopened, hwaiting, hlost, -⟩ |
      ⟨-, -, channel, left, hleft, rfl⟩ := step_cases hs h
  · refine ⟨htokens, ?_, ?_⟩
    · rw [hmoved, hleft, hbegun]
      exact hs.moves
    · omega
  · exact ⟨hs.tokens, hs.moves, hs.windows⟩
  · refine ⟨htokens, ?_, ?_⟩
    · have hmoves := hs.moves
      rw [hnone, List.append_nil] at hmoves
      rw [hmoved, hleft, hbegun, rounds_succ, hmoves]
    · omega
  · refine ⟨hs.tokens, ?_, hs.windows⟩
    have hmoves := hs.moves
    rw [hleft] at hmoves
    show (s.moved ++ [channel]) ++ left = _
    rw [List.append_assoc]
    exact hmoves

/-- **A pass for each token.** In every run the channels have been moved in whole rounds
    in their order, but for what is left of the last, a round for each token taken; the
    tokens taken, waiting and lost are the windows opened; and the token of a window is
    lost just when ten wait. -/
theorem passes_for_tokens {ops : List Op} (h : run (step m p) start ops = some t) :
    t.moved ++ t.left = rounds m p t.begun ∧ t.begun + t.waiting + t.lost = t.opened ∧
      t.waiting ≤ 10 ∧
      ∀ now u, step m p t (.openWindow now) = some u → (u.lost = t.lost + 1 ↔ t.waiting = 10) := by
  have ht : Accounted m p t :=
    run_invariant (fun _ _ _ hs hstep => step_accounted hs hstep) start_accounted h
  refine ⟨ht.moves, ht.windows, ?_, fun now u hstep => ?_⟩
  · rw [← ht.tokens.capacity]
    exact t.mq.within
  · obtain ⟨-, -, -, -, -, -, -, htoken, -⟩ | ⟨heq, -⟩ | ⟨hrunning, -⟩ | ⟨hrunning, -⟩ :=
      step_cases ht hstep
    · omega
    · cases heq
    · simp [step, hrunning] at hstep
    · simp [step, hrunning] at hstep

end

theorem dawn_normalized : (⟨0, 0⟩ : Timespec).Normalized := Timespec.normalized_second 0

/-- The clock stands. -/
def dawn : ClockTime := ⟨⟨0, 0⟩, dawn_normalized⟩

/-- A network partition that is the source of one queueing channel. -/
def oneChannel : Partition :=
  ⟨"network", true, fun _ => [], fun kind => if kind = .queueing then ["channel"] else [],
    fun _ => []⟩

/-- A module that has its channel. -/
def oneChannelModule : ModuleManager :=
  ⟨[oneChannel], [], [], fun _ _ => some (Channel.construct "channel" .interModuleSrc 0)⟩

/-- The first window is too short for the move. -/
def twoWindows : List Op :=
  [.openWindow dawn, .receive dawn, .closeWindow, .openWindow dawn, .move, .closeWindow]

theorem passes_for_tokens_twoWindows :
    ∃ t, run (step oneChannelModule oneChannel) start twoWindows = some t ∧
      t.begun + t.waiting + t.lost = t.opened ∧ t.waiting = 1 := by
  obtain ⟨t, ht, hwaiting⟩ : ∃ t, run (step oneChannelModule oneChannel) start twoWindows = some t ∧
      t.waiting = 1 := ⟨_, rfl, rfl⟩
  obtain ⟨-, hwindows, -⟩ := passes_for_tokens ht
  exact ⟨t, ht, hwindows, hwaiting⟩

/-! ## One pass for each window -/

section
variable {m : ModuleManager} {p : Partition} {s t : State}

/-- The end of a window finds the process waiting, and no token in the queue. -/
def Punctual (s : State) : Op → Prop
  | .closeWindow => s.left = [] ∧ s.waiting = 0
  | .openWindow _ | .receive _ | .move => True

instance (s : State) : (op : Op) → Decidable (Punctual s op)
  | .closeWindow => inferInstanceAs (Decidable (_ ∧ _))
  | .openWindow _ | .receive _ | .move => inferInstanceAs (Decidable True)

/-- Only the end of a window can be unpunctual. -/
theorem punctual_of_ne {s : State} {op : Op} (h : op ≠ .closeWindow) : Punctual s op := by
  cases op with
  | closeWindow => exact absurd rfl h
  | openWindow _ | receive _ | move => exact trivial

/-- While the process is stopped there has been a round for each window. -/
def Served (m : ModuleManager) (p : Partition) (s : State) : Prop :=
  s.running = false → s.moved = rounds m p s.opened

/-- Where no token is lost, there has been a round for each window just when the process
    is at the end of one and has no token to take. -/
theorem Accounted.moved_iff (hs : Accounted m p s) (hchannels : firedChannels m p ≠ [])
    (hlost : s.lost = 0) : s.moved = rounds m p s.opened ↔ s.left = [] ∧ s.waiting = 0 := by
  have hwindows := hs.windows
  have hpos : 0 < (firedChannels m p).length := List.length_pos_iff.mpr hchannels
  constructor
  · intro hmoved
    have hlength : s.moved.length + s.left.length = s.begun * (firedChannels m p).length := by
      rw [← List.length_append, hs.moves, length_rounds]
    rw [hmoved, length_rounds] at hlength
    have hle : s.begun * (firedChannels m p).length ≤ s.opened * (firedChannels m p).length :=
      Nat.mul_le_mul_right _ (by omega)
    have hleft : s.left.length = 0 := by omega
    have heq : s.opened = s.begun := Nat.eq_of_mul_eq_mul_right hpos (by omega)
    exact ⟨List.length_eq_zero_iff.mp hleft, by omega⟩
  · rintro ⟨hleft, hwaiting⟩
    have hmoves := hs.moves
    rw [hleft, List.append_nil] at hmoves
    rw [hmoves]
    congr 1
    omega

/-- **One pass for each window.** All along a run the channels have been moved once for
    each window whenever the process is stopped, just when every window's end finds the
    process waiting and no token in the queue. -/
theorem pass_every_window_iff (hchannels : firedChannels m p ≠ []) {ops : List Op}
    (h : run (step m p) start ops = some t) :
    Always (step m p) (Served m p) start ops ↔ Meets (step m p) Punctual start ops := by
  refine always_iff_meets (J := fun s => Accounted m p s ∧ s.lost = 0) ?_ (fun _ => rfl)
    ⟨start_accounted, rfl⟩ h
  rintro s op t hserved ⟨hs, hlost⟩ hstep
  have ht := step_accounted hs hstep
  obtain ⟨hstopped, hrunning, -, -, -, -, -, htoken, hop⟩ | ⟨rfl, -, rfl⟩ |
      ⟨-, hrunning, -, -, -, -, -, -, -, hkept, hop⟩ | ⟨hrunning, hop, channel, left, -, rfl⟩ :=
    step_cases hs hstep
  · -- the window before this one has left no token
    have hwaiting := ((hs.moved_iff hchannels hlost).mp (hserved hstopped)).2
    have hserved' : Served m p t := fun hnot => absurd (hrunning.symm.trans hnot) (by decide)
    exact ⟨iff_of_true hserved' (punctual_of_ne hop), fun _ => ⟨ht, by omega⟩⟩
  · have hiff := hs.moved_iff hchannels hlost
    exact ⟨⟨fun hserved' => hiff.mp (hserved' rfl), fun hpunctual _ => hiff.mpr hpunctual⟩,
      fun _ => ⟨ht, hlost⟩⟩
  · have hserved' : Served m p t := fun hnot => absurd (hrunning.symm.trans hnot) (by decide)
    exact ⟨iff_of_true hserved' (punctual_of_ne hop), fun _ => ⟨ht, hkept.trans hlost⟩⟩
  · have hserved' : Served m p { s with left, moved := s.moved ++ [channel] } := by
      intro hnot
      exact absurd (hrunning.symm.trans hnot) (by decide)
    exact ⟨iff_of_true hserved' (punctual_of_ne hop), fun _ => ⟨ht, hlost⟩⟩

end

/-- The process is done before its window ends. -/
def doneInTime : List Op := [.openWindow dawn, .receive dawn, .move, .closeWindow]

theorem pass_every_window_iff_doneInTime :
    Always (step oneChannelModule oneChannel) (Served oneChannelModule oneChannel) start
      doneInTime := by
  obtain ⟨t, ht⟩ : ∃ t, run (step oneChannelModule oneChannel) start doneInTime = some t :=
    ⟨_, rfl⟩
  exact (pass_every_window_iff (by decide) ht).mpr (by decide)

end Arinc.NetworkPartition
