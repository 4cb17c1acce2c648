import Mathlib.Data.List.Nodup
import Mathlib.Logic.Function.Basic
import ArincEmulator.Lib.Runs

/- `SYNC_WITH_OTHER_MODULE_MANAGERS`: the barrier between the system module
   manager and its children. A child sends `BARRIER_READY` and waits for an answer
   of its parent; the parent resets the flags of its children, collects messages
   until every flag is set and broadcasts `BARRIER_ACK`.

   A child waits while the source of `syncrecv` is not its parent. `syncrecv` is
   a local variable whose constructor leaves the names and the type alone, so the
   first test reads what the stack holds; right after an earlier call that is the
   parent's last acknowledgement (`stale_ack_ends_round`). The value is part of
   the label of the step that declares it.

   What is proved, for any number of children and rounds, any interleaving and any
   order of delivery across senders: while the slot of `syncrecv` does not hold
   the parent's name and no receive of a child fails, the parent leaves a round
   only when every child has entered it, and no child returns true from a round
   that the parent has not left (`barrier_agrees`). -/
namespace Arinc.Barrier
open Runs

/-! ## Messages and parties -/

/-- `SocketSynchronizationMessageType::SyncType`. -/
inductive SyncType where
  | barrierReady
  | barrierAck
  | start
  | stop
  | networkLatencyReady
  | networkLatencyChildAck
  | neworkLatencyParentAck
  deriving DecidableEq, Repr

/-- `SocketSynchronizationMessageType`: the fields that are read. -/
structure SyncMessage (M : Type*) where
  sync : SyncType
  messageSrcModule : M
  deriving DecidableEq, Repr

/-- `child_url`: an entry of `childrenModules`. -/
structure ChildUrl (M : Type*) where
  childname : M
  receivedanswer : Bool
  deriving DecidableEq, Repr

/-- The modules of a configuration; the keys of `childrenModules` are distinct. -/
structure Config (M : Type*) where
  parentName : M
  childNames : List M
  nodup : childNames.Nodup

/-- Where a child is: outside the call, past the sending of `BARRIER_READY`, or at
    the test of the loop with what `syncrecv` holds. -/
inductive ChildPc (M : Type*) where
  | outside
  | sent
  | waiting (syncrecv : SyncMessage M)
  deriving DecidableEq, Repr

/-- A child with the two channels between it and its parent. `entered` counts its
    calls and `trueRounds` lists those that returned true. -/
structure Child (M : Type*) where
  pc : ChildPc M
  toParent : List (SyncMessage M)
  fromParent : List (SyncMessage M)
  entered : Nat
  trueRounds : List Nat

/-- Where the parent is: outside the call, in its collection, or past it. -/
inductive ParentPc where
  | outside
  | collecting
  | collected
  deriving DecidableEq, Repr

/-- `left` counts the collections the parent has left. -/
structure State (M : Type*) where
  parentPc : ParentPc
  childrenModules : List (ChildUrl M)
  left : Nat
  children : M → Child M

variable {M : Type*}

/-- `resetchildrenModules`. -/
def resetChildrenModules (l : List (ChildUrl M)) : List (ChildUrl M) :=
  l.map fun e => { e with receivedanswer := false }

/-- `numchildrensyncremaining`. -/
def numChildrenSyncRemaining (l : List (ChildUrl M)) : Nat :=
  (l.filter fun e => !e.receivedanswer).length

variable [DecidableEq M]

/-- `childrenModules[src].receivedanswer = true`: a name that is no key becomes one. -/
def markAnswered (l : List (ChildUrl M)) (src : M) : List (ChildUrl M) :=
  if src ∈ l.map ChildUrl.childname then
    l.map fun e => if e.childname = src then { e with receivedanswer := true } else e
  else l ++ [⟨src, true⟩]

def Child.start : Child M := ⟨.outside, [], [], 0, []⟩

def start (cfg : Config M) : State M :=
  ⟨.outside, cfg.childNames.map fun c => ⟨c, false⟩, 0, fun _ => Child.start⟩

/-- The steps of the parties. `declare` carries what the slot of `syncrecv` holds
    when the variable comes to life; `receiveFails` is a receive that delivers no
    whole message. The messages of one sender arrive in order, and the parent takes
    from any of its senders. -/
inductive Op (M : Type*) where
  | enter (c : M)
  | declare (c : M) (slot : SyncMessage M)
  | receive (c : M)
  | receiveFails (c : M)
  | return (c : M)
  | parentEnter
  | parentReceive (c : M)
  | parentLeave
  | broadcast

/-! ## The step -/

namespace Child

/-- The call begins: `BARRIER_READY` goes to the parent. -/
def enter (k : Child M) (c : M) : Option (Child M) :=
  if k.pc = .outside then
    some { k with pc := .sent, entered := k.entered + 1,
                  toParent := k.toParent ++ [⟨.barrierReady, c⟩] }
  else none

/-- `syncrecv` is declared and not set. -/
def declare (k : Child M) (slot : SyncMessage M) : Option (Child M) :=
  if k.pc = .sent then some { k with pc := .waiting slot } else none

/-- A round of the loop, for a `syncrecv` that is not from the parent. -/
def receive (k : Child M) (parentName : M) : Option (Child M) :=
  match k.pc, k.fromParent with
  | .waiting syncrecv, m :: rest =>
    if syncrecv.messageSrcModule ≠ parentName then
      some { k with pc := .waiting m, fromParent := rest }
    else none
  | _, _ => none

/-- The same round when the size of what was received is wrong, or `errno` is
    `EAGAIN`: the call returns false. -/
def receiveFails (k : Child M) (parentName : M) : Option (Child M) :=
  match k.pc with
  | .waiting syncrecv =>
    if syncrecv.messageSrcModule ≠ parentName then some { k with pc := .outside } else none
  | _ => none

/-- Out of the loop: true for `BARRIER_ACK`. -/
def leave (k : Child M) (parentName : M) : Option (Child M) :=
  match k.pc with
  | .waiting syncrecv =>
    if syncrecv.messageSrcModule = parentName then
      some { k with pc := .outside,
                    trueRounds := if syncrecv.sync = .barrierAck then k.entered :: k.trueRounds
                                  else k.trueRounds }
    else none
  | _ => none

end Child

/-- A step of one configured child. -/
def State.ofChild (s : State M) (cfg : Config M) (c : M) (f : Child M → Option (Child M)) :
    Option (State M) :=
  if c ∈ cfg.childNames then
    (f (s.children c)).map fun k => { s with children := Function.update s.children c k }
  else none

/-- `SYNC_WITH_OTHER_MODULE_MANAGERS` of the parent begins. -/
def State.parentEnter (s : State M) : Option (State M) :=
  if s.parentPc = .outside then
    some { s with parentPc := .collecting,
                  childrenModules := resetChildrenModules s.childrenModules }
  else none

/-- A round of the collection: the next message of the sender `c` is taken. One
    that is not `BARRIER_READY` is dropped. -/
def State.parentReceive (s : State M) (cfg : Config M) (c : M) : Option (State M) :=
  if s.parentPc = .collecting ∧ 0 < numChildrenSyncRemaining s.childrenModules ∧
      c ∈ cfg.childNames then
    match (s.children c).toParent with
    | [] => none
    | m :: rest =>
      some { s with
        children := Function.update s.children c { s.children c with toParent := rest }
        childrenModules :=
          if m.sync = .barrierReady then markAnswered s.childrenModules m.messageSrcModule
          else s.childrenModules }
  else none

/-- The collection ends. -/
def State.parentLeave (s : State M) : Option (State M) :=
  if s.parentPc = .collecting ∧ numChildrenSyncRemaining s.childrenModules = 0 then
    some { s with parentPc := .collected, left := s.left + 1 }
  else none

/-- `BARRIER_ACK` goes to every child and the call returns. -/
def State.broadcast (s : State M) (cfg : Config M) : Option (State M) :=
  if s.parentPc = .collected then
    some { s with
      parentPc := .outside
      children := fun c =>
        { s.children c with
          fromParent := (s.children c).fromParent ++ [⟨.barrierAck, cfg.parentName⟩] } }
  else none

/-- One step. -/
def step (cfg : Config M) (s : State M) : Op M → Option (State M)
  | .enter c => s.ofChild cfg c fun k => k.enter c
  | .declare c slot => s.ofChild cfg c fun k => k.declare slot
  | .receive c => s.ofChild cfg c fun k => k.receive cfg.parentName
  | .receiveFails c => s.ofChild cfg c fun k => k.receiveFails cfg.parentName
  | .return c => s.ofChild cfg c fun k => k.leave cfg.parentName
  | .parentEnter => s.parentEnter
  | .parentReceive c => s.parentReceive cfg c
  | .parentLeave => s.parentLeave
  | .broadcast => s.broadcast cfg

/-- The parent is never ahead of a child, and no child has returned true from a
    round that the parent has not left or another child not entered. -/
def Agreed (cfg : Config M) (s : State M) : Prop :=
  ∀ c ∈ cfg.childNames, s.left ≤ (s.children c).entered ∧
    ∀ r ∈ (s.children c).trueRounds, r ≤ s.left ∧
      ∀ c' ∈ cfg.childNames, r ≤ (s.children c').entered

instance (cfg : Config M) (s : State M) : Decidable (Agreed cfg s) :=
  inferInstanceAs (Decidable (∀ c ∈ cfg.childNames, _ ∧ ∀ r ∈ _, _ ∧ ∀ c' ∈ cfg.childNames, _))

/-- The slot of `syncrecv` does not name the parent, and receives of a child deliver. -/
def Clean (cfg : Config M) (_ : State M) : Op M → Prop
  | .declare _ slot => slot.messageSrcModule ≠ cfg.parentName
  | .receiveFails _ => False
  | _ => True

instance (cfg : Config M) (s : State M) : ∀ a, Decidable (Clean cfg s a)
  | .declare _ slot => inferInstanceAs (Decidable (slot.messageSrcModule ≠ cfg.parentName))
  | .receiveFails _ => inferInstanceAs (Decidable False)
  | .enter _ | .receive _ | .return _ | .parentEnter | .parentReceive _ | .parentLeave
  | .broadcast => inferInstanceAs (Decidable True)

/-! ## The table of the children -/

omit [DecidableEq M] in
@[simp] theorem map_childname_reset (l : List (ChildUrl M)) :
    (resetChildrenModules l).map ChildUrl.childname = l.map ChildUrl.childname := by
  simp [resetChildrenModules, Function.comp_def]

omit [DecidableEq M] in
theorem not_mem_reset (l : List (ChildUrl M)) (c : M) : ⟨c, true⟩ ∉ resetChildrenModules l := by
  simp [resetChildrenModules]

theorem map_childname_mark {l : List (ChildUrl M)} {src : M}
    (hsrc : src ∈ l.map ChildUrl.childname) :
    (markAnswered l src).map ChildUrl.childname = l.map ChildUrl.childname := by
  rw [markAnswered, if_pos hsrc, List.map_map]
  apply List.map_congr_left
  intro e _
  simp only [Function.comp_apply]
  split <;> rfl

theorem mem_mark {l : List (ChildUrl M)} {src : M} (hsrc : src ∈ l.map ChildUrl.childname)
    (c : M) : ⟨c, true⟩ ∈ markAnswered l src ↔ c = src ∨ ⟨c, true⟩ ∈ l := by
  rw [markAnswered, if_pos hsrc, List.mem_map]
  constructor
  · rintro ⟨e, he, heq⟩
    by_cases hname : e.childname = src
    · rw [if_pos hname] at heq
      left
      rw [← hname, show c = e.childname from (congrArg ChildUrl.childname heq).symm]
    · rw [if_neg hname] at heq
      exact .inr (heq ▸ he)
  · rintro (rfl | hmem)
    · obtain ⟨e, he, hname⟩ := List.mem_map.mp hsrc
      refine ⟨e, he, ?_⟩
      rw [if_pos hname, ← hname]
    · refine ⟨⟨c, true⟩, hmem, ?_⟩
      split <;> rfl

omit [DecidableEq M] in
theorem mem_of_remaining_eq_zero {l : List (ChildUrl M)} (h : numChildrenSyncRemaining l = 0)
    {c : M} (hc : c ∈ l.map ChildUrl.childname) : ⟨c, true⟩ ∈ l := by
  obtain ⟨e, he, rfl⟩ := List.mem_map.mp hc
  have hnone : (l.filter fun e => !e.receivedanswer) = [] := List.length_eq_zero_iff.mp h
  have hset : e.receivedanswer = true := by simpa using List.filter_eq_nil_iff.mp hnone e he
  rw [← hset]
  exact he

/-! ## The invariant -/

/-- One for a child that has sent `BARRIER_READY` and not taken an answer yet. -/
def Child.owed (k : Child M) (parentName : M) : Nat :=
  match k.pc with
  | .outside => 0
  | .sent => 1
  | .waiting syncrecv => if syncrecv.messageSrcModule = parentName then 0 else 1

/-- One while the parent collects and has the answer of `c`. -/
def State.answered (s : State M) (c : M) : Nat :=
  if s.parentPc = .collecting ∧ ⟨c, true⟩ ∈ s.childrenModules then 1 else 0

omit [DecidableEq M] in
/-- One while the parent has left a collection and not broadcast yet. -/
def State.unsent (s : State M) : Nat := if s.parentPc = .collected then 1 else 0

/-- What holds of the child `c` when the parent has left `left` collections. Each
    entry of the child is a `BARRIER_READY` on its way, one of a round left, or
    the answer of this round; each round left has its `BARRIER_ACK` still to be
    sent, on its way, or taken. -/
structure ChildInv (parentName c : M) (left answered unsent : Nat) (k : Child M) : Prop where
  ready : ∀ m ∈ k.toParent, m = ⟨.barrierReady, c⟩
  ack : ∀ m ∈ k.fromParent, m = ⟨.barrierAck, parentName⟩
  collected : k.entered = k.toParent.length + left + answered
  released : k.fromParent.length + k.entered + unsent = left + k.owed parentName
  past : ∀ r ∈ k.trueRounds, r ≤ left
  taken : ∀ m, k.pc = .waiting m → m.messageSrcModule = parentName → m.sync = .barrierAck

structure Inv (cfg : Config M) (s : State M) : Prop where
  keys : s.childrenModules.map ChildUrl.childname = cfg.childNames
  child : ∀ c ∈ cfg.childNames,
    ChildInv cfg.parentName c s.left (s.answered c) s.unsent (s.children c)

theorem start_inv (cfg : Config M) : Inv cfg (start cfg) where
  keys := by simp [start, Function.comp_def]
  child c _ := by constructor <;> simp [start, Child.start, State.answered, State.unsent, Child.owed]

/-! ## Children keep it -/

section
variable {p c : M} {left answered unsent : Nat} {k k' : Child M}

theorem Child.owed_le (k : Child M) (p : M) : k.owed p ≤ 1 := by
  unfold Child.owed
  split
  · exact Nat.zero_le 1
  · exact Nat.le_refl 1
  · split <;> omega

theorem enter_inv (hk : ChildInv p c left answered unsent k) (h : k.enter c = some k') :
    ChildInv p c left answered unsent k' := by
  obtain ⟨hpc, hk'⟩ : k.pc = .outside ∧ _ = k' := by simpa [Child.enter] using h
  subst hk'
  have howed : k.owed p = 0 := by rw [Child.owed, hpc]
  refine ⟨?_, hk.ack, ?_, ?_, hk.past, nofun⟩
  · intro m hm
    rcases List.mem_append.mp hm with hm | hm
    · exact hk.ready m hm
    · exact List.mem_singleton.mp hm
  · have := hk.collected
    simp only [List.length_append, List.length_singleton]
    omega
  · have := hk.released
    simp only [Child.owed]
    omega

theorem declare_inv {slot : SyncMessage M} (hslot : slot.messageSrcModule ≠ p)
    (hk : ChildInv p c left answered unsent k) (h : k.declare slot = some k') :
    ChildInv p c left answered unsent k' := by
  obtain ⟨hpc, hk'⟩ : k.pc = .sent ∧ _ = k' := by simpa [Child.declare] using h
  subst hk'
  refine ⟨hk.ready, hk.ack, hk.collected, ?_, hk.past, ?_⟩
  · have := hk.released
    simp only [Child.owed, hpc] at this
    simp only [Child.owed, if_neg hslot]
    exact this
  · intro m hm hsrc
    obtain rfl : slot = m := by simpa using hm
    exact absurd hsrc hslot

theorem receive_inv (hk : ChildInv p c left answered unsent k) (h : k.receive p = some k') :
    ChildInv p c left answered unsent k' := by
  unfold Child.receive at h
  split at h
  · next syncrecv m rest hpc hfrom =>
    obtain ⟨hsrc, hk'⟩ : syncrecv.messageSrcModule ≠ p ∧ _ = k' := by simpa using h
    subst hk'
    -- all that is in flight to a child is acknowledgements of its parent
    have hm : m = ⟨.barrierAck, p⟩ := hk.ack m (by rw [hfrom]; exact List.mem_cons_self)
    refine ⟨hk.ready, ?_, hk.collected, ?_, hk.past, ?_⟩
    · intro x hx
      exact hk.ack x (by rw [hfrom]; exact List.mem_cons_of_mem m hx)
    · have := hk.released
      simp only [Child.owed, hpc, if_neg hsrc, hfrom, List.length_cons] at this
      simp only [Child.owed, hm, if_true]
      omega
    · intro x hx _
      obtain rfl : m = x := by simpa using hx
      rw [hm]
  · cases h

theorem leave_inv (hk : ChildInv p c left answered unsent k) (h : k.leave p = some k') :
    ChildInv p c left answered unsent k' := by
  unfold Child.leave at h
  split at h
  · next syncrecv hpc =>
    obtain ⟨hsrc, hk'⟩ : syncrecv.messageSrcModule = p ∧ _ = k' := by simpa using h
    subst hk'
    have hreleased := hk.released
    simp only [Child.owed, hpc, if_pos hsrc] at hreleased
    refine ⟨hk.ready, hk.ack, hk.collected, ?_, ?_, nofun⟩
    · simp only [Child.owed]
      omega
    · intro r hr
      rw [if_pos (hk.taken syncrecv hpc hsrc)] at hr
      rcases List.mem_cons.mp hr with rfl | hr
      · omega
      · exact hk.past r hr
  · cases h

end

theorem ofChild_inv {cfg : Config M} {s t : State M} {c : M} {f : Child M → Option (Child M)}
    (hs : Inv cfg s) (h : s.ofChild cfg c f = some t)
    (hf : ∀ k', ChildInv cfg.parentName c s.left (s.answered c) s.unsent (s.children c) →
      f (s.children c) = some k' →
      ChildInv cfg.parentName c s.left (s.answered c) s.unsent k') : Inv cfg t := by
  obtain ⟨hc, k', hk', ht⟩ :
      c ∈ cfg.childNames ∧ ∃ k', f (s.children c) = some k' ∧ _ = t := by
    simpa [State.ofChild] using h
  subst ht
  refine ⟨hs.keys, ?_⟩
  intro d hd
  show ChildInv cfg.parentName d s.left (s.answered d) s.unsent (Function.update s.children c k' d)
  by_cases hdc : d = c
  · rw [hdc, Function.update_self]
    exact hf k' (hs.child c hc) hk'
  · rw [Function.update_of_ne hdc]
    exact hs.child d hd

/-! ## The parent keeps it -/

theorem parentEnter_inv {cfg : Config M} {s t : State M} (hs : Inv cfg s)
    (h : s.parentEnter = some t) : Inv cfg t := by
  obtain ⟨hpc, ht⟩ : s.parentPc = .outside ∧ _ = t := by simpa [State.parentEnter] using h
  subst ht
  refine ⟨by rw [map_childname_reset, hs.keys], ?_⟩
  intro c hc
  have hanswered : s.answered c = 0 := by simp [State.answered, hpc]
  have hunsent : s.unsent = 0 := by simp [State.unsent, hpc]
  have hinv := hs.child c hc
  rw [hanswered, hunsent] at hinv
  simpa [State.answered, State.unsent, not_mem_reset] using hinv

/-- The child whose message is taken had not answered this round: it has entered at
    most one round more than the parent has left. -/
theorem ChildInv.answered_eq_zero {p c : M} {left answered unsent : Nat} {k : Child M}
    (hk : ChildInv p c left answered unsent k) (hto : k.toParent ≠ []) : answered = 0 := by
  have hlen : 0 < k.toParent.length := List.length_pos_iff.mpr hto
  have := hk.collected
  have := hk.released
  have := k.owed_le p
  omega

theorem parentReceive_inv {cfg : Config M} {s t : State M} {c : M} (hs : Inv cfg s)
    (h : s.parentReceive cfg c = some t) : Inv cfg t := by
  unfold State.parentReceive at h
  split at h
  · next hguard =>
    obtain ⟨hpc, -, hc⟩ := hguard
    split at h
    · cases h
    · next m rest hto =>
      have hk := hs.child c hc
      have hm : m = ⟨.barrierReady, c⟩ := hk.ready m (by rw [hto]; exact List.mem_cons_self)
      have hkey : c ∈ s.childrenModules.map ChildUrl.childname := by rw [hs.keys]; exact hc
      obtain rfl := Option.some.inj h
      simp only [hm, if_true]
      refine ⟨(map_childname_mark hkey).trans hs.keys, ?_⟩
      intro d hd
      have hunsent : s.unsent = 0 := by simp [State.unsent, hpc]
      by_cases hdc : d = c
      · -- the message was still to be counted, and its flag counts it now
        subst hdc
        have hzero : s.answered d = 0 := hk.answered_eq_zero (by rw [hto]; exact List.cons_ne_nil m rest)
        have hone : ⟨d, true⟩ ∈ markAnswered s.childrenModules d := (mem_mark hkey d).mpr (.inl rfl)
        rw [hzero, hunsent] at hk
        simp only [Function.update_self, State.answered, State.unsent, hpc, hone, and_self, if_true,
          reduceCtorEq, if_false]
        refine ⟨?_, hk.ack, ?_, hk.released, hk.past, hk.taken⟩
        · intro x hx
          exact hk.ready x (by rw [hto]; exact List.mem_cons_of_mem m hx)
        · have hcollected := hk.collected
          rw [hto, List.length_cons] at hcollected
          show (s.children d).entered = rest.length + s.left + 1
          omega
      · have hsame := hs.child d hd
        rw [hunsent] at hsame
        simp only [State.answered, hpc] at hsame
        simpa only [State.answered, State.unsent, hpc, mem_mark hkey, hdc, false_or,
          Function.update_of_ne hdc, ne_eq, not_false_eq_true, reduceCtorEq, if_false] using hsame
  · cases h

theorem parentLeave_inv {cfg : Config M} {s t : State M} (hs : Inv cfg s)
    (h : s.parentLeave = some t) : Inv cfg t := by
  obtain ⟨⟨hpc, hall⟩, ht⟩ :
      (s.parentPc = .collecting ∧ numChildrenSyncRemaining s.childrenModules = 0) ∧ _ = t := by
    simpa only [State.parentLeave, Option.ite_none_right_eq_some, Option.some.injEq] using h
  subst ht
  refine ⟨hs.keys, ?_⟩
  intro c hc
  have hk := hs.child c hc
  have hanswer : s.answered c = 1 := by
    rw [State.answered, if_pos ⟨hpc, mem_of_remaining_eq_zero hall (by rw [hs.keys]; exact hc)⟩]
  have hunsent : s.unsent = 0 := by simp [State.unsent, hpc]
  have hcollected := hk.collected
  have hreleased := hk.released
  rw [hanswer] at hcollected
  rw [hunsent] at hreleased
  refine ⟨hk.ready, hk.ack, ?_, ?_, ?_, hk.taken⟩
  · simp only [State.answered, reduceCtorEq, false_and, if_false]
    omega
  · simp only [State.unsent, if_true]
    omega
  · intro r hr
    exact Nat.le_succ_of_le (hk.past r hr)

theorem broadcast_inv {cfg : Config M} {s t : State M} (hs : Inv cfg s)
    (h : s.broadcast cfg = some t) : Inv cfg t := by
  obtain ⟨hpc, ht⟩ : s.parentPc = .collected ∧ _ = t := by simpa [State.broadcast] using h
  subst ht
  refine ⟨hs.keys, ?_⟩
  intro c hc
  have hk := hs.child c hc
  have hanswered : s.answered c = 0 := by simp [State.answered, hpc]
  have hunsent : s.unsent = 1 := by simp [State.unsent, hpc]
  rw [hanswered, hunsent] at hk
  refine ⟨hk.ready, ?_, ?_, ?_, hk.past, hk.taken⟩
  · intro m hm
    rcases List.mem_append.mp hm with hm | hm
    · exact hk.ack m hm
    · exact List.mem_singleton.mp hm
  · simpa [State.answered] using hk.collected
  · have hreleased := hk.released
    simp only [State.unsent, reduceCtorEq, if_false, List.length_append, List.length_singleton]
    show _ = s.left + (s.children c).owed cfg.parentName
    omega

/-! ## Runs -/

theorem step_inv {cfg : Config M} (s : State M) (a : Op M) (t : State M) (hs : Inv cfg s)
    (hclean : Clean cfg s a) (h : step cfg s a = some t) : Inv cfg t := by
  cases a with
  | enter c => exact ofChild_inv (f := fun k => k.enter c) hs h fun _ hk hk' => enter_inv hk hk'
  | declare c slot =>
    exact ofChild_inv (f := fun k => k.declare slot) hs h fun _ hk hk' => declare_inv hclean hk hk'
  | receive c => exact ofChild_inv (f := fun k => k.receive cfg.parentName) hs h fun _ hk hk' => receive_inv hk hk'
  | receiveFails c => exact hclean.elim
  | «return» c => exact ofChild_inv (f := fun k => k.leave cfg.parentName) hs h fun _ hk hk' => leave_inv hk hk'
  | parentEnter => exact parentEnter_inv hs h
  | parentReceive c => exact parentReceive_inv hs h
  | parentLeave => exact parentLeave_inv hs h
  | broadcast => exact broadcast_inv hs h

theorem Inv.agreed {cfg : Config M} {s : State M} (hs : Inv cfg s) : Agreed cfg s := by
  have hleft : ∀ c ∈ cfg.childNames, s.left ≤ (s.children c).entered := by
    intro c hc
    have := (hs.child c hc).collected
    omega
  intro c hc
  refine ⟨hleft c hc, ?_⟩
  intro r hr
  have hr : r ≤ s.left := (hs.child c hc).past r hr
  exact ⟨hr, fun c' hc' => Nat.le_trans hr (hleft c' hc')⟩

/-- **The barrier agrees.** In every state of every run in which no slot of
    `syncrecv` holds the parent's name and no receive of a child fails, the parent
    has left no round that a child has not entered, and no child has returned true
    from a round that the parent has not left. -/
theorem barrier_agrees (cfg : Config M) (as : List (Op M)) (t : State M)
    (hclean : Meets (step cfg) (Clean cfg) (start cfg) as)
    (hrun : run (step cfg) (start cfg) as = some t) : Agreed cfg t :=
  Inv.agreed (run_invariant_of_meets step_inv (start_inv cfg) hclean hrun)

/-- A system module manager 0 with the children 1 and 2. -/
def twoChildren : Config Nat := ⟨0, [1, 2], by decide⟩

/-- The slot of a variable the stack has not used for a message of the parent. -/
def freshSlot : SyncMessage Nat := ⟨.barrierReady, 1⟩

/-- A round of both children and the parent, up to the return of child 1. -/
def firstRound : List (Op Nat) :=
  [.enter 1, .declare 1 freshSlot, .enter 2, .declare 2 freshSlot, .parentEnter, .parentReceive 2,
    .parentReceive 1, .parentLeave, .broadcast, .receive 1, .return 1]

theorem barrier_agrees_firstRound :
    ∃ t, run (step twoChildren) (start twoChildren) firstRound = some t ∧
      (t.children 1).trueRounds = [1] ∧ Agreed twoChildren t :=
  ⟨_, rfl, rfl, barrier_agrees twoChildren firstRound _ (by decide) rfl⟩

/-- Child 1 calls again at once: its slot holds the acknowledgement of the first
    round, the loop is not entered, and the second round is over for it before the
    parent or child 2 has entered it. -/
theorem stale_ack_ends_round :
    ∃ t, run (step twoChildren) (start twoChildren)
        (firstRound ++ [.enter 1, .declare 1 ⟨.barrierAck, 0⟩, .return 1]) = some t ∧
      2 ∈ (t.children 1).trueRounds ∧ t.left = 1 ∧ (t.children 2).entered = 1 ∧
      ¬ Agreed twoChildren t :=
  ⟨_, rfl, by decide, rfl, rfl, by decide⟩

end Arinc.Barrier
