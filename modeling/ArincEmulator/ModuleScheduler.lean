import ArincEmulator.Schedule
import ArincEmulator.Time

/- The cyclic scheduler of the module manager (`RUN_WITHOUT_SYSTEM_MANAGER` and
   `RUN_PARTITION`). It computes nominal times from the start of the frame,
   sleeps until each, continues and stops the partition of the window and moves
   its channels around that. Every action takes as long as the environment says
   (`delay`), so a wake-up may be late by any amount; the actions are logged with
   the time they were over.

   What is proved, for every number of frames and all delays:
     1. `runWithoutSystemManager_actions` — the actions of a run are those of its
        frames, one after another, the frame `k` at `T0 + k * MAJOR_FRAME_SIZE`;
        no assertion of the time helpers fails.
     2. `hyperperiods_on_schedule` — so the windows are opened and closed for
        their nominal times, once per frame and in order, CONT and STOP
        alternate on one partition at a time, and no sleep ends early. -/
namespace Arinc.ModuleScheduler

open Arinc.Schedule

/-- `PARTITION`: what a window's run reads of it. -/
structure Partition where
  isNetworkPartition : Bool
  queueChannelInterModuleDst : List String
  samplingChannelInterModuleDst : List String
  queueChannelSource : List String
  samplingChannelSource : List String
  configurationQueue : String

/-- `MODULE_MANAGER`: what the scheduler reads of it. `configurationQueues` says
    for which names the map holds a queue that is not null; the channel names of
    the partitions are resolved when the module starts. -/
structure ModuleManager where
  partitionVector : Nat → Partition
  schedulingVector : List SchedulingTuple
  majorFrameSize : Int
  isMaxNumberOfFramesSet : Bool
  maxNumberOfFrames : Int
  configurationQueues : String → Bool

/-- An action of the scheduler; `sleepUntil` carries its deadline in nanoseconds. -/
inductive Action where
  | sleepUntil (deadline : Int)
  | moveQueueChannel (name : String)
  | moveSamplingChannel (name : String)
  | sendToken (queue : String)
  | sigcont (partitionIndex : Nat)
  | sigstop (partitionIndex : Nat)
  deriving DecidableEq, Repr

/-- An action and the time it was over. -/
structure Event where
  action : Action
  finished : Int
  deriving DecidableEq, Repr

/-- The scheduler at work: the clock and what it has done. -/
structure Machine where
  now : Int
  trace : List Event

/-- The time before which an action begun at `now` is not over:
    `clock_nanosleep` is called until its deadline has passed. -/
def Action.earliest (now : Int) : Action → Int
  | .sleepUntil deadline => max now deadline
  | _ => now

/-- One action; how long it takes beyond that is up to the environment. -/
def perform (delay : Nat → Nat) (a : Action) (m : Machine) : Machine :=
  let done := a.earliest m.now + delay m.trace.length
  ⟨done, m.trace ++ [⟨a, done⟩]⟩

/-- A loop over the entries of a vector. -/
def performAll (delay : Nat → Nat) : List Action → Machine → Machine
  | [], m => m
  | a :: as, m => performAll delay as (perform delay a m)

/-- `RUN_PARTITION`. A channel whose `sendTo` throws ends the manager; such a move has no
    action. -/
def runPartition (mgr : ModuleManager) (delay : Nat → Nat) (partitionIndex : Nat)
    (absoluteDurationTime : Timespec) (m : Machine) : Machine :=
  let p := mgr.partitionVector partitionIndex
  -- messages from other modules come in before the window, the partition's own go out behind it
  let m := if !p.isNetworkPartition then
      performAll delay (p.samplingChannelInterModuleDst.map .moveSamplingChannel)
        (performAll delay (p.queueChannelInterModuleDst.map .moveQueueChannel) m)
    else m
  let m := if p.isNetworkPartition && mgr.configurationQueues p.configurationQueue then
      perform delay (.sendToken p.configurationQueue) m
    else m
  let m := perform delay (.sigcont partitionIndex) m
  let m := perform delay (.sleepUntil absoluteDurationTime.toNano) m
  let m := perform delay (.sigstop partitionIndex) m
  if !p.isNetworkPartition then
    performAll delay (p.samplingChannelSource.map .moveSamplingChannel)
      (performAll delay (p.queueChannelSource.map .moveQueueChannel) m)
  else m

/-- One round of the loop over the schedule. -/
def runWindow (mgr : ModuleManager) (delay : Nat → Nat) (startHyperPeriod : Timespec)
    (w : SchedulingTuple) (m : Machine) : Option Machine := do
  let absoluteOffsetTime ← addTimeNano startHyperPeriod w.offset
  let absoluteDurationTime ← addTimeNano startHyperPeriod (w.offset + w.duration)
  return runPartition mgr delay w.partitionIndex absoluteDurationTime
    (perform delay (.sleepUntil absoluteOffsetTime.toNano) m)

/-- The loop over the schedule. -/
def runWindows (mgr : ModuleManager) (delay : Nat → Nat) (startHyperPeriod : Timespec) :
    List SchedulingTuple → Machine → Option Machine
  | [], m => some m
  | w :: ws, m => (runWindow mgr delay startHyperPeriod w m).bind fun m' =>
      runWindows mgr delay startHyperPeriod ws m'

/-- One frame: its windows, and the sleep until the next one starts. -/
def runFrame (mgr : ModuleManager) (delay : Nat → Nat) (startHyperPeriod : Timespec)
    (m : Machine) : Option (Timespec × Machine) := do
  let m ← runWindows mgr delay startHyperPeriod mgr.schedulingVector m
  let next ← addTimeNano startHyperPeriod mgr.majorFrameSize
  return (next, perform delay (.sleepUntil next.toNano) m)

/-- `RUN_WITHOUT_SYSTEM_MANAGER` for at most `frames` rounds of its loop. -/
def runWithoutSystemManager (mgr : ModuleManager) (delay : Nat → Nat) :
    Nat → Int → Timespec → Machine → Option Machine
  | 0, _, _, m => some m
  | frames + 1, numberOfIterations, startHyperPeriod, m =>
    if !mgr.isMaxNumberOfFramesSet || decide (numberOfIterations < mgr.maxNumberOfFrames) then
      (runFrame mgr delay startHyperPeriod m).bind fun (next, m') =>
        runWithoutSystemManager mgr delay frames
          (if mgr.isMaxNumberOfFramesSet then numberOfIterations + 1 else numberOfIterations)
          next m'
    else some m

/-- The rounds the loop still makes, of at most `frames`. -/
def framesRun (mgr : ModuleManager) (frames : Nat) (numberOfIterations : Int) : Nat :=
  if mgr.isMaxNumberOfFramesSet then min frames (mgr.maxNumberOfFrames - numberOfIterations).toNat
  else frames

/-! ## What a frame should do -/

/-- The actions of window `w` in the frame that starts at `start`. -/
def windowActions (mgr : ModuleManager) (start : Int) (w : SchedulingTuple) : List Action :=
  let p := mgr.partitionVector w.partitionIndex
  let regular : List Action → List Action := fun as => if p.isNetworkPartition then [] else as
  [.sleepUntil (start + w.offset)]
    ++ regular (p.queueChannelInterModuleDst.map .moveQueueChannel
        ++ p.samplingChannelInterModuleDst.map .moveSamplingChannel)
    ++ (if p.isNetworkPartition && mgr.configurationQueues p.configurationQueue
        then [.sendToken p.configurationQueue] else [])
    ++ [.sigcont w.partitionIndex, .sleepUntil (start + w.finish), .sigstop w.partitionIndex]
    ++ regular (p.queueChannelSource.map .moveQueueChannel
        ++ p.samplingChannelSource.map .moveSamplingChannel)

/-- The actions of the frame that starts at `start`: every window once, in the
    order of the schedule, and the sleep until the next frame. -/
def frameActions (mgr : ModuleManager) (start : Int) : List Action :=
  mgr.schedulingVector.flatMap (windowActions mgr start)
    ++ [.sleepUntil (start + mgr.majorFrameSize)]

/-- The actions of `n` frames, the first at `start`. -/
def hyperperiods (mgr : ModuleManager) (start : Int) (n : Nat) : List Action :=
  (List.range n).flatMap fun k : Nat => frameActions mgr (start + k * mgr.majorFrameSize)

/-- The partition left continued by the actions, if each CONT finds none
    continued and each STOP the one it stops; `none` if one does not. -/
def continued : Option Nat → List Action → Option (Option Nat)
  | r, [] => some r
  | none, .sigcont i :: as => continued (some i) as
  | some _, .sigcont _ :: _ => none
  | some j, .sigstop i :: as => if i = j then continued none as else none
  | none, .sigstop _ :: _ => none
  | r, _ :: as => continued r as

/-- The log is honest: time never goes back, and no sleep ends early. -/
structure Punctual (m : Machine) : Prop where
  ordered : m.trace.Pairwise fun e f => e.finished ≤ f.finished
  past : ∀ e ∈ m.trace, e.finished ≤ m.now
  slept : ∀ e ∈ m.trace, ∀ deadline, e.action = .sleepUntil deadline → deadline ≤ e.finished

/-- The actions logged so far. -/
def Machine.actions (m : Machine) : List Action := m.trace.map Event.action

/-! ## Single actions -/

section Actions

variable (delay : Nat → Nat)

@[simp] theorem perform_actions (a : Action) (m : Machine) :
    (perform delay a m).actions = m.actions ++ [a] := by
  simp [perform, Machine.actions]

@[simp] theorem performAll_actions (as : List Action) (m : Machine) :
    (performAll delay as m).actions = m.actions ++ as := by
  induction as generalizing m with
  | nil => simp [performAll]
  | cons a as ih => simp [performAll, ih]

theorem earliest_ge (now : Int) (a : Action) : now ≤ a.earliest now := by
  cases a with
  | sleepUntil deadline => exact Int.le_max_left now deadline
  | _ => exact Int.le_refl now

theorem perform_punctual (a : Action) {m : Machine} (hm : Punctual m) :
    Punctual (perform delay a m) := by
  have hge := earliest_ge m.now a
  have hdone : m.now ≤ a.earliest m.now + delay m.trace.length := by omega
  refine ⟨?_, ?_, ?_⟩
  · refine List.pairwise_append.mpr ⟨hm.ordered, List.pairwise_singleton _ _, ?_⟩
    intro e he f hf
    rw [List.mem_singleton.mp hf]
    exact Int.le_trans (hm.past e he) hdone
  · intro e he
    rcases List.mem_append.mp he with he | he
    · exact Int.le_trans (hm.past e he) hdone
    · rw [List.mem_singleton.mp he]
      exact Int.le_refl _
  · intro e he deadline hsleep
    rcases List.mem_append.mp he with he | he
    · exact hm.slept e he deadline hsleep
    · rw [List.mem_singleton.mp he] at hsleep ⊢
      simp only at hsleep ⊢
      rw [hsleep, Action.earliest]
      have hmax := Int.le_max_right m.now deadline
      omega

theorem performAll_punctual (as : List Action) {m : Machine} (hm : Punctual m) :
    Punctual (performAll delay as m) := by
  induction as generalizing m with
  | nil => exact hm
  | cons a as ih => exact ih (perform_punctual delay a hm)

end Actions

/-! ## Windows, frames and runs -/

theorem runPartition_actions (mgr : ModuleManager) (delay : Nat → Nat) (start : Int)
    (w : SchedulingTuple) (until_ : Timespec) (huntil : until_.toNano = start + w.finish)
    (m : Machine) :
    (runPartition mgr delay w.partitionIndex until_
        (perform delay (.sleepUntil (start + w.offset)) m)).actions
      = m.actions ++ windowActions mgr start w := by
  unfold runPartition windowActions
  by_cases hnet : (mgr.partitionVector w.partitionIndex).isNetworkPartition
  · by_cases hqueue : mgr.configurationQueues
        (mgr.partitionVector w.partitionIndex).configurationQueue
    · simp [hnet, hqueue, huntil]
    · simp [hnet, hqueue, huntil]
  · simp [hnet, huntil]

theorem runPartition_punctual (mgr : ModuleManager) (delay : Nat → Nat) (partitionIndex : Nat)
    (until_ : Timespec) {m : Machine} (hm : Punctual m) :
    Punctual (runPartition mgr delay partitionIndex until_ m) := by
  unfold runPartition
  by_cases hnet : (mgr.partitionVector partitionIndex).isNetworkPartition
  · by_cases hqueue : mgr.configurationQueues
        (mgr.partitionVector partitionIndex).configurationQueue
    · simp only [hnet, hqueue, Bool.not_true, Bool.false_eq_true, if_false, Bool.and_self, if_true]
      exact perform_punctual _ _ (perform_punctual _ _ (perform_punctual _ _
        (perform_punctual _ _ hm)))
    · simp only [hnet, hqueue, Bool.not_true, Bool.false_eq_true, if_false, Bool.and_false]
      exact perform_punctual _ _ (perform_punctual _ _ (perform_punctual _ _ hm))
  · simp only [hnet, Bool.not_false, Bool.false_eq_true, if_false, Bool.false_and, if_true]
    exact performAll_punctual _ _ (performAll_punctual _ _ (perform_punctual _ _
      (perform_punctual _ _ (perform_punctual _ _ (performAll_punctual _ _
        (performAll_punctual _ _ hm))))))

/-- A schedule the time helpers accept: a frame of positive, representable
    length and windows inside it. -/
structure Runnable (mgr : ModuleManager) : Prop where
  frame_pos : 0 < mgr.majorFrameSize
  frame_le : mgr.majorFrameSize ≤ maxTimeOut
  valid : Valid mgr.majorFrameSize mgr.schedulingVector

section Runs

variable {mgr : ModuleManager} (delay : Nat → Nat)

/-- A window's run logs the window's actions, whatever the delays. -/
theorem runWindow_spec (hmgr : Runnable mgr) {w : SchedulingTuple}
    (hw : w ∈ mgr.schedulingVector) (start : Timespec) {m : Machine} (hm : Punctual m) :
    ∃ m', runWindow mgr delay start w m = some m' ∧
      m'.actions = m.actions ++ windowActions mgr start.toNano w ∧ Punctual m' := by
  have hoff := hmgr.valid.offset_nonneg w hw
  have hdur := hmgr.valid.duration_nonneg w hw
  have hend := hmgr.valid.inFrame w hw
  have hmax := hmgr.frame_le
  unfold SchedulingTuple.finish at hend
  refine ⟨_, by
    rw [runWindow, addTimeNano_of_nonneg hoff (by omega),
      addTimeNano_of_nonneg (n := w.offset + w.duration) (by omega) (by omega)]
    rfl, ?_, ?_⟩
  · rw [toNano_addNano start w.offset]
    exact runPartition_actions mgr delay start.toNano w _ (toNano_addNano start _) m
  · exact runPartition_punctual mgr delay _ _ (perform_punctual delay _ hm)

theorem runWindows_spec (hmgr : Runnable mgr) (start : Timespec) :
    ∀ (ws : List SchedulingTuple), (∀ w ∈ ws, w ∈ mgr.schedulingVector) →
      ∀ m, Punctual m → ∃ m', runWindows mgr delay start ws m = some m' ∧
        m'.actions = m.actions ++ ws.flatMap (windowActions mgr start.toNano) ∧ Punctual m' := by
  intro ws
  induction ws with
  | nil => exact fun _ m hm => ⟨m, rfl, by simp, hm⟩
  | cons w ws ih =>
    intro hws m hm
    obtain ⟨m₁, h₁, ha₁, hm₁⟩ := runWindow_spec delay hmgr (hws w List.mem_cons_self) start hm
    obtain ⟨m₂, h₂, ha₂, hm₂⟩ := ih (fun v hv => hws v (List.mem_cons_of_mem w hv)) m₁ hm₁
    refine ⟨m₂, by rw [runWindows, h₁]; exact h₂, ?_, hm₂⟩
    rw [ha₂, ha₁, List.flatMap_cons, List.append_assoc]

theorem runFrame_spec (hmgr : Runnable mgr) (start : Timespec) {m : Machine}
    (hm : Punctual m) :
    ∃ next m', runFrame mgr delay start m = some (next, m') ∧
      next.toNano = start.toNano + mgr.majorFrameSize ∧
      m'.actions = m.actions ++ frameActions mgr start.toNano ∧ Punctual m' := by
  obtain ⟨m₁, h₁, ha₁, hm₁⟩ :=
    runWindows_spec delay hmgr start mgr.schedulingVector (fun _ h => h) m hm
  have hpos := hmgr.frame_pos
  have hnext := addTimeNano_of_nonneg (by omega) hmgr.frame_le start
  refine ⟨_, _, by rw [runFrame, h₁, hnext]; rfl, toNano_addNano _ _, ?_,
    perform_punctual delay _ hm₁⟩
  rw [perform_actions, ha₁, toNano_addNano, frameActions, List.append_assoc]

theorem hyperperiods_succ (start : Int) (n : Nat) :
    hyperperiods mgr start (n + 1)
      = frameActions mgr start ++ hyperperiods mgr (start + mgr.majorFrameSize) n := by
  have hshift : ∀ k : Nat, start + mgr.majorFrameSize + k * mgr.majorFrameSize
      = start + (k + 1 : Nat) * mgr.majorFrameSize := by
    intro k
    rw [Int.natCast_add, Int.add_mul, Int.natCast_one, Int.one_mul]
    omega
  simp only [hyperperiods, List.range_succ_eq_map, List.flatMap_cons, List.flatMap_map, hshift]
  simp

/-- A run logs the actions of its frames, the `k`-th at its nominal start. The
    induction is on the rounds left; `iterations` counts those made. -/
theorem runWithoutSystemManager_actions (hmgr : Runnable mgr) :
    ∀ (frames : Nat) (iterations : Int) (start : Timespec) (m : Machine), Punctual m →
      ∃ m', runWithoutSystemManager mgr delay frames iterations start m = some m' ∧
        m'.actions = m.actions
          ++ hyperperiods mgr start.toNano (framesRun mgr frames iterations) ∧
        Punctual m' := by
  intro frames
  induction frames with
  | zero => exact fun _ _ m hm => ⟨m, rfl, by simp [framesRun, hyperperiods], hm⟩
  | succ frames ih =>
    intro iterations start m hm
    by_cases hgo : (!mgr.isMaxNumberOfFramesSet
        || decide (iterations < mgr.maxNumberOfFrames)) = true
    · obtain ⟨next, m₁, h₁, hnext, ha₁, hm₁⟩ := runFrame_spec delay hmgr start hm
      obtain ⟨m₂, h₂, ha₂, hm₂⟩ := ih (if mgr.isMaxNumberOfFramesSet then iterations + 1
        else iterations) next m₁ hm₁
      refine ⟨m₂, by rw [runWithoutSystemManager, if_pos hgo, h₁]; exact h₂, ?_, hm₂⟩
      -- Without a maximum the number of frames is that of the rounds, with one it stops there.
      have hcount : framesRun mgr (frames + 1) iterations = framesRun mgr frames
          (if mgr.isMaxNumberOfFramesSet then iterations + 1 else iterations) + 1 := by
        unfold framesRun
        cases hset : mgr.isMaxNumberOfFramesSet
        · rfl
        · simp only [hset, Bool.not_true, Bool.false_or, decide_eq_true_eq] at hgo
          simp only [if_true]
          omega
      rw [ha₂, ha₁, hcount, hyperperiods_succ, hnext, List.append_assoc]
    · refine ⟨m, by rw [runWithoutSystemManager, if_neg hgo], ?_, hm⟩
      simp only [Bool.or_eq_true, Bool.not_eq_true', decide_eq_true_eq, not_or,
        Bool.not_eq_false] at hgo
      have hcount : framesRun mgr (frames + 1) iterations = 0 := by
        unfold framesRun
        rw [if_pos hgo.1]
        omega
      simp [hcount, hyperperiods]

end Runs

/-! ## One partition at a time -/

/-- The action continues and stops nothing. -/
def Action.Quiet : Action → Prop
  | .sigcont _ | .sigstop _ => False
  | _ => True

theorem continued_append (r : Option Nat) (as bs : List Action) :
    continued r (as ++ bs) = (continued r as).bind fun r' => continued r' bs := by
  induction as generalizing r with
  | nil => rfl
  | cons a as ih =>
    cases r with
    | none => cases a <;> simp [continued, ih]
    | some j =>
      cases a with
      | sigstop i =>
        simp only [List.cons_append, continued]
        split
        · exact ih none
        · rfl
      | _ => simp [continued, ih]

theorem continued_quiet {as : List Action} (h : ∀ a ∈ as, a.Quiet) (r : Option Nat) :
    continued r as = some r := by
  induction as with
  | nil => cases r <;> rfl
  | cons a as ih =>
    have ha := h a List.mem_cons_self
    have ih := ih fun b hb => h b (List.mem_cons_of_mem a hb)
    cases a with
    | sigcont i => exact absurd ha id
    | sigstop i => exact absurd ha id
    | _ => cases r <;> exact ih

theorem continued_window (mgr : ModuleManager) (start : Int) (w : SchedulingTuple) :
    continued none (windowActions mgr start w) = some none := by
  have hregular : ∀ (b : Bool) (queues samplings : List String), ∀ a ∈ (if b then [] else
      queues.map Action.moveQueueChannel ++ samplings.map Action.moveSamplingChannel),
      a.Quiet := by
    intro b queues samplings a ha
    cases b with
    | true => simp at ha
    | false =>
      simp only [Bool.false_eq_true, if_false, List.mem_append, List.mem_map] at ha
      rcases ha with ⟨name, -, rfl⟩ | ⟨name, -, rfl⟩ <;> trivial
  have htoken : ∀ (b : Bool) (queue : String), ∀ a ∈ (if b then [Action.sendToken queue] else []),
      a.Quiet := by
    intro b queue a ha
    cases b with
    | true =>
      rw [if_pos rfl, List.mem_singleton] at ha
      rw [ha]
      trivial
    | false => simp at ha
  unfold windowActions
  simp only [continued_append, continued_quiet (hregular _ _ _), continued_quiet (htoken _ _),
    continued, Option.bind_some, if_true]

theorem continued_hyperperiods (mgr : ModuleManager) (start : Int) (n : Nat) :
    continued none (hyperperiods mgr start n) = some none := by
  have hflat : ∀ {α : Type} (f : α → List Action), (∀ x, continued none (f x) = some none) →
      ∀ xs : List α, continued none (xs.flatMap f) = some none := by
    intro α f hf xs
    induction xs with
    | nil => rfl
    | cons x xs ih => rw [List.flatMap_cons, continued_append, hf x, Option.bind_some, ih]
  refine hflat _ (fun k => ?_) _
  rw [frameActions, continued_append, hflat _ (continued_window mgr _)]
  rfl

/-! ## The run on its schedule -/

/-- A window of some frame at its nominal times. -/
structure Slot where
  opens : Int
  closes : Int

/-- The windows of `n` frames in the order they are run. -/
def slots (mgr : ModuleManager) (start : Int) (n : Nat) : List Slot :=
  (List.range n).flatMap fun k : Nat => mgr.schedulingVector.map fun w =>
    ⟨start + k * mgr.majorFrameSize + w.offset, start + k * mgr.majorFrameSize + w.finish⟩

/-- Over all frames the windows open in order and do not overlap. -/
theorem slots_ordered {mgr : ModuleManager} (hmgr : Runnable mgr)
    (hsorted : Sorted mgr.schedulingVector) (start : Int) (n : Nat) :
    (slots mgr start n).Pairwise fun a b =>
      a.opens ≤ b.opens ∧ (a.closes ≤ b.opens ∨ b.closes ≤ a.opens) := by
  unfold slots
  rw [List.pairwise_flatMap]
  constructor
  · intro k _
    rw [List.pairwise_map]
    refine (hsorted.offset_le.and hmgr.valid.disjoint).imp fun h => ?_
    simp only
    omega
  · refine List.pairwise_lt_range.imp fun {j k} hjk a ha b hb => ?_
    obtain ⟨v, hv, rfl⟩ := List.mem_map.mp ha
    obtain ⟨w, hw, rfl⟩ := List.mem_map.mp hb
    -- the frame of `v` is over before the frame of `w` starts
    have hframe : ((j : Int) + 1) * mgr.majorFrameSize ≤ k * mgr.majorFrameSize :=
      Int.mul_le_mul_of_nonneg_right (by omega) (by have := hmgr.frame_pos; omega)
    rw [Int.add_mul, Int.one_mul] at hframe
    have hv' := hmgr.valid.inFrame v hv
    have hdur := hmgr.valid.duration_nonneg v hv
    have hw' := hmgr.valid.offset_nonneg w hw
    unfold SchedulingTuple.finish at hv' ⊢
    simp only
    omega

/-- Every run, for every number of frames and all delays: no assertion ends it;
    window `w` of frame `k` is opened for `T0 + k * MAJOR_FRAME_SIZE + OFFSET` and
    closed at that time plus `DURATION`, once per frame, with the channels of its
    partition moved before its CONT and after its STOP (`windowActions`); these
    windows are in order and disjoint; at every moment at most one partition is
    continued, and each STOP is for the one continued; no sleep ends early. -/
theorem hyperperiods_on_schedule (mgr : ModuleManager) (hmgr : Runnable mgr)
    (hsorted : Sorted mgr.schedulingVector) (delay : Nat → Nat) (frames : Nat)
    (t0 : Timespec) :
    ∃ m, runWithoutSystemManager mgr delay frames 0 t0 ⟨t0.toNano, []⟩ = some m ∧
      m.actions = hyperperiods mgr t0.toNano (framesRun mgr frames 0) ∧
      (slots mgr t0.toNano (framesRun mgr frames 0)).Pairwise
        (fun a b => a.opens ≤ b.opens ∧ (a.closes ≤ b.opens ∨ b.closes ≤ a.opens)) ∧
      (∀ done, done <+: m.actions → ∃ r, continued none done = some r) ∧
      continued none m.actions = some none ∧
      ∀ e ∈ m.trace, ∀ deadline, e.action = .sleepUntil deadline → deadline ≤ e.finished := by
  have hstart : Punctual ⟨t0.toNano, []⟩ := ⟨.nil, by simp, by simp⟩
  obtain ⟨m, hrun, hactions, hm⟩ :=
    runWithoutSystemManager_actions delay hmgr frames 0 t0 _ hstart
  have hactions : m.actions = hyperperiods mgr t0.toNano (framesRun mgr frames 0) := by
    simpa [Machine.actions] using hactions
  have hcont : continued none m.actions = some none := by
    rw [hactions]
    exact continued_hyperperiods mgr _ _
  refine ⟨m, hrun, hactions, slots_ordered hmgr hsorted _ _, ?_, hcont, hm.slept⟩
  rintro done ⟨rest, hrest⟩
  rw [← hrest, continued_append] at hcont
  obtain ⟨r, hr, -⟩ := Option.bind_eq_some_iff.mp hcont
  exact ⟨r, hr⟩

/-- A module with one regular and one network partition. -/
def twoPartitions : ModuleManager where
  partitionVector i := if i = 0 then ⟨false, ["in"], [], ["out"], ["state"], ""⟩
    else ⟨true, [], [], [], [], "net"⟩
  schedulingVector := [⟨0, 0, 40⟩, ⟨1, 40, 20⟩]
  majorFrameSize := 100
  isMaxNumberOfFramesSet := true
  maxNumberOfFrames := 2
  configurationQueues name := name == "net"

theorem hyperperiods_on_schedule_twoPartitions :
    ∃ m, runWithoutSystemManager twoPartitions (fun _ => 7) 5 0 ⟨3, 50⟩
        ⟨(⟨3, 50⟩ : Timespec).toNano, []⟩ = some m ∧
      m.actions = hyperperiods twoPartitions 3000000050 2 := by
  obtain ⟨m, hrun, hactions, -⟩ := hyperperiods_on_schedule twoPartitions
    ⟨by decide, by decide, ⟨by decide, by decide, by decide, by decide⟩⟩ (by decide)
    (fun _ => 7) 5 ⟨3, 50⟩
  exact ⟨m, hrun, hactions⟩

end Arinc.ModuleScheduler
