import Mathlib.Data.List.Sort

/- A datagram service between a sender and a receiver. What has been sent can arrive,
   also twice, never, or behind what was sent later; what has arrived waits until the
   receiver takes it. The link remembers the place of each arrival in what was sent, so
   that a promise of the network is a condition on a list of numbers.

   Whatever the network does, only what was sent arrives (`mem_of_mem_arrived`), and
   what has been taken stays as it is (`Later.takenPlaces`). Where it keeps the order
   and repeats nothing, what has arrived is part of what was sent
   (`InOrder.arrived_sublist`); where it also loses nothing, it is the beginning of it
   (`arrived_of_range`). -/
namespace Arinc.Datagrams

/-! ## Addresses -/

/-- The datagrams for an address. -/
def sentTo {U α : Type*} [DecidableEq U] (url : U) (sent : List (U × α)) : List α :=
  (sent.filter (·.1 = url)).map Prod.snd

section
variable {U α : Type*} [DecidableEq U]

theorem sentTo_append (url : U) (sent sent' : List (U × α)) :
    sentTo url (sent ++ sent') = sentTo url sent ++ sentTo url sent' := by
  rw [sentTo, List.filter_append, List.map_append, sentTo, sentTo]

theorem sentTo_map (url : U) (urls : List U) (d : α) :
    sentTo url (urls.map fun u => (u, d)) = List.replicate (urls.count url) d := by
  induction urls with
  | nil => rfl
  | cons u urls ih =>
    unfold sentTo at ih ⊢
    by_cases hu : u = url
    · rw [List.map_cons, List.filter_cons_of_pos (by simpa using hu), List.map_cons, ih, hu,
        List.count_cons_self, List.replicate_succ]
    · rw [List.map_cons, List.filter_cons_of_neg (by simpa using hu), ih,
        List.count_cons_of_ne hu]

/-- Datagrams sent, each in its turn, to addresses that have this one once. -/
theorem sentTo_flatMap {url : U} {urls : List U} (hurls : urls.count url = 1) (ds : List α) :
    sentTo url (ds.flatMap fun d => urls.map fun u => (u, d)) = ds := by
  induction ds with
  | nil => rfl
  | cons d ds ih =>
    rw [List.flatMap_cons, sentTo_append, sentTo_map, hurls, ih]
    rfl

end

/-! ## Links -/

/-- What has been sent, the places in it of what has arrived, and how many arrivals the
    receiver has taken. -/
structure Link (α : Type*) where
  sent : List α
  arrivals : List Nat
  taken : Nat
  sound : ∀ i ∈ arrivals, i < sent.length
  within : taken ≤ arrivals.length

namespace Link

variable {α : Type*}

/-- A link over which nothing has been sent. -/
def idle : Link α where
  sent := []
  arrivals := []
  taken := 0
  sound := by simp
  within := Nat.le_refl 0

/-- The sender sends some datagrams. -/
def send (l : Link α) (ds : List α) : Link α where
  sent := l.sent ++ ds
  arrivals := l.arrivals
  taken := l.taken
  sound i hi := by
    rw [List.length_append]
    exact Nat.lt_add_right ds.length (l.sound i hi)
  within := l.within

/-- A datagram that was sent arrives. -/
def arrive (l : Link α) (i : Nat) : Option (Link α) :=
  if h : i < l.sent.length then
    some
      { sent := l.sent
        arrivals := l.arrivals ++ [i]
        taken := l.taken
        sound := by
          intro j hj
          obtain hj | hj := List.mem_append.mp hj
          · exact l.sound j hj
          · rwa [List.mem_singleton.mp hj]
        within := by
          rw [List.length_append]
          exact Nat.le_add_right_of_le l.within }
  else none

/-- The receiver takes some of the datagrams that wait. -/
def take (l : Link α) (n : Nat) : Link α where
  sent := l.sent
  arrivals := l.arrivals
  taken := min (l.taken + n) l.arrivals.length
  sound := l.sound
  within := Nat.min_le_right _ _

/-- What has arrived, the oldest first. -/
def arrived (l : Link α) : List α := l.arrivals.filterMap (l.sent[·]?)

/-- What the receiver has taken. -/
def received (l : Link α) : List α := l.arrived.take l.taken

/-- What waits for the receiver. -/
def pending (l : Link α) : List α := l.arrived.drop l.taken

/-- The places of what the receiver has taken. -/
def takenPlaces (l : Link α) : List Nat := l.arrivals.take l.taken

/-- The place of the datagram taken last. -/
def lastTaken (l : Link α) : Option Nat := l.takenPlaces.getLast?

variable {l l' : Link α}

/-! ## What the operations do -/

theorem received_append_pending (l : Link α) : l.received ++ l.pending = l.arrived :=
  List.take_append_drop l.taken l.arrived

theorem forall₂_filterMap {as : List α} {places : List Nat} (h : ∀ i ∈ places, i < as.length) :
    List.Forall₂ (fun i a => as[i]? = some a) places (places.filterMap (as[·]?)) := by
  induction places with
  | nil => exact List.Forall₂.nil
  | cons i places ih =>
    obtain ⟨hi, hrest⟩ := List.forall_mem_cons.mp h
    rw [List.filterMap_cons, List.getElem?_eq_getElem hi]
    exact List.Forall₂.cons (List.getElem?_eq_getElem hi) (ih hrest)

theorem forall₂_arrived (l : Link α) :
    List.Forall₂ (fun i a => l.sent[i]? = some a) l.arrivals l.arrived :=
  forall₂_filterMap l.sound

theorem length_arrived (l : Link α) : l.arrived.length = l.arrivals.length :=
  l.forall₂_arrived.length_eq.symm

theorem length_pending (l : Link α) : l.pending.length = l.arrivals.length - l.taken := by
  rw [pending, List.length_drop, length_arrived]

theorem mem_of_mem_arrived {a : α} (h : a ∈ l.arrived) : a ∈ l.sent := by
  obtain ⟨i, -, hi⟩ := List.mem_filterMap.mp h
  exact List.mem_of_getElem? hi

theorem mem_of_mem_pending {a : α} (h : a ∈ l.pending) : a ∈ l.sent :=
  mem_of_mem_arrived (List.mem_of_mem_drop h)

theorem arrived_send (l : Link α) (ds : List α) : (l.send ds).arrived = l.arrived := by
  apply List.filterMap_congr
  intro i hi
  exact List.getElem?_append_left (l.sound i hi)

theorem arrive_some {i : Nat} (h : l.arrive i = some l') :
    ∃ a, l.sent[i]? = some a ∧ l'.sent = l.sent ∧ l'.arrivals = l.arrivals ++ [i] ∧
      l'.taken = l.taken ∧ l'.arrived = l.arrived ++ [a] := by
  unfold arrive at h
  split at h
  · rename_i hi
    obtain rfl := Option.some.inj h
    refine ⟨l.sent[i], List.getElem?_eq_getElem hi, rfl, rfl, rfl, ?_⟩
    simp only [arrived, List.filterMap_append, List.filterMap_cons, List.filterMap_nil,
      List.getElem?_eq_getElem hi]
  · cases h

theorem received_send (l : Link α) (ds : List α) : (l.send ds).received = l.received := by
  rw [received, arrived_send]
  rfl

theorem received_arrive {i : Nat} (h : l.arrive i = some l') : l'.received = l.received := by
  obtain ⟨a, -, -, -, htaken, harrived⟩ := arrive_some h
  have hwithin : l.taken ≤ l.arrived.length := by
    rw [length_arrived]
    exact l.within
  rw [received, harrived, htaken, List.take_append_of_le_length hwithin, received]

theorem arrived_take (l : Link α) (n : Nat) : (l.take n).arrived = l.arrived := rfl

/-- A receiver that takes all there is for it, or as much as it may. -/
theorem received_take (l : Link α) (n : Nat) :
    (l.take n).received = l.received ++ l.pending.take n := by
  rw [received, arrived_take, received, pending, ← List.take_add]
  simp only [take]
  rw [← length_arrived, ← List.take_eq_take_min]

theorem lastTaken_lt {i : Nat} (h : l.lastTaken = some i) : i < l.sent.length :=
  l.sound i (List.mem_of_mem_take (List.mem_of_getLast? h))

theorem lastTaken_send (l : Link α) (ds : List α) : (l.send ds).lastTaken = l.lastTaken := rfl

theorem lastTaken_arrive {i : Nat} (h : l.arrive i = some l') : l'.lastTaken = l.lastTaken := by
  obtain ⟨_, -, -, harrivals, htaken, -⟩ := arrive_some h
  rw [lastTaken, takenPlaces, harrivals, htaken, List.take_append_of_le_length l.within]
  rfl

/-- The receiver takes nothing, or the datagram it takes last is the last of those it
    takes now. -/
theorem lastTaken_take (l : Link α) (n : Nat) :
    l.pending.take n = [] ∧ (l.take n).lastTaken = l.lastTaken ∨
      ∃ i a, (l.take n).lastTaken = some i ∧ l.sent[i]? = some a ∧
        (l.pending.take n).getLast? = some a := by
  have hplaces : (l.take n).takenPlaces = l.takenPlaces ++ (l.arrivals.drop l.taken).take n := by
    rw [takenPlaces, takenPlaces, ← List.take_add]
    exact (List.take_eq_take_min ..).symm
  have hpaired : List.Forall₂ (fun i a => l.sent[i]? = some a)
      ((l.arrivals.drop l.taken).take n) (l.pending.take n) :=
    List.forall₂_take n (List.forall₂_drop l.taken l.forall₂_arrived)
  obtain hnone | ⟨front, a, hlast⟩ := List.eq_nil_or_concat' (l.pending.take n)
  · left
    rw [hnone, List.forall₂_nil_right_iff] at hpaired
    exact ⟨hnone, by rw [lastTaken, hplaces, hpaired, List.append_nil, lastTaken]⟩
  · right
    rw [hlast] at hpaired
    have hend := List.forall₂_drop_append _ front [a] hpaired
    obtain ⟨i, rest, hi, hnil, hdrop⟩ := List.forall₂_cons_right_iff.mp hend
    rw [List.forall₂_nil_right_iff.mp hnil] at hdrop
    refine ⟨i, a, ?_, hi, by rw [hlast, List.getLast?_concat]⟩
    rw [lastTaken, hplaces, ← List.take_append_drop front.length ((l.arrivals.drop l.taken).take n),
      hdrop, ← List.append_assoc, List.getLast?_concat]

/-- A receiver that takes all that waits has taken the last arrival. -/
theorem lastTaken_take_all (l : Link α) :
    (l.take l.pending.length).lastTaken = l.arrivals.getLast? := by
  have hall : min (l.taken + l.pending.length) l.arrivals.length = l.arrivals.length := by
    have hwithin := l.within
    rw [length_pending]
    omega
  simp only [lastTaken, takenPlaces, take, hall, List.take_length]

/-! ## Runs of a link -/

/-- A later state of a link: more may have been sent, more may have arrived, and more
    may have been taken. -/
structure Later (l l' : Link α) : Prop where
  sent : l.sent <+: l'.sent
  arrivals : l.arrivals <+: l'.arrivals
  taken : l.taken ≤ l'.taken

theorem Later.refl (l : Link α) : Later l l :=
  ⟨List.prefix_refl _, List.prefix_refl _, Nat.le_refl _⟩

theorem Later.trans {l'' : Link α} (h : Later l l') (h' : Later l' l'') : Later l l'' :=
  ⟨h.sent.trans h'.sent, h.arrivals.trans h'.arrivals, Nat.le_trans h.taken h'.taken⟩

theorem later_send (l : Link α) (ds : List α) : Later l (l.send ds) :=
  ⟨List.prefix_append _ _, List.prefix_refl _, Nat.le_refl _⟩

theorem later_arrive {i : Nat} (h : l.arrive i = some l') : Later l l' := by
  obtain ⟨_, -, hsent, harrivals, htaken, -⟩ := arrive_some h
  refine ⟨?_, ?_, Nat.le_of_eq htaken.symm⟩
  · exact ⟨[], by rw [List.append_nil, hsent]⟩
  · rw [harrivals]
    exact List.prefix_append _ _

theorem later_take (l : Link α) (n : Nat) : Later l (l.take n) :=
  ⟨List.prefix_refl _, List.prefix_refl _,
    Nat.le_min.mpr ⟨Nat.le_add_right _ _, l.within⟩⟩

theorem Later.takenPlaces (h : Later l l') : l.takenPlaces <+: l'.takenPlaces := by
  have hprefix : l.takenPlaces <+: l'.arrivals := (List.take_prefix _ _).trans h.arrivals
  refine List.prefix_of_prefix_length_le hprefix (List.take_prefix _ _) ?_
  rw [Link.takenPlaces, Link.takenPlaces, List.length_take, List.length_take,
    Nat.min_eq_left l.within, Nat.min_eq_left l'.within]
  exact h.taken

/-! ## Promises of the network -/

/-- The network keeps the order: what arrives later was not sent earlier. -/
def Ordered (l : Link α) : Prop := l.arrivals.Pairwise (· ≤ ·)

/-- It keeps the order and repeats nothing. -/
def InOrder (l : Link α) : Prop := l.arrivals.Pairwise (· < ·)

instance (l : Link α) : Decidable l.Ordered := inferInstanceAs (Decidable (List.Pairwise _ _))

instance (l : Link α) : Decidable l.InOrder := inferInstanceAs (Decidable (List.Pairwise _ _))

theorem filterMap_range (as : List α) (n : Nat) :
    (List.range n).filterMap (as[·]?) = as.take n := by
  induction n with
  | zero => rfl
  | succ n ih =>
    calc (List.range (n + 1)).filterMap (as[·]?)
        = (List.range n).filterMap (as[·]?) ++ [n].filterMap (as[·]?) := by
          rw [List.range_succ, List.filterMap_append]
      _ = as.take n ++ as[n]?.toList := by
          rw [ih]
          rfl
      _ = as.take (n + 1) := List.take_add_one.symm

/-- A network that delivers everything in order. -/
theorem arrived_of_range {n : Nat} (h : l.arrivals = List.range n) : l.arrived = l.sent.take n := by
  rw [arrived, h, filterMap_range]

/-- What a network in order delivers is part of what was sent, in that order. -/
theorem InOrder.arrived_sublist (h : l.InOrder) : l.arrived.Sublist l.sent := by
  have hplaces : l.arrivals.Sublist (List.range l.sent.length) := by
    apply List.sublist_of_subperm_of_pairwise (r := (· < ·))
    · refine List.subperm_of_subset (h.imp Nat.ne_of_lt) ?_
      intro i hi
      exact List.mem_range.mpr (l.sound i hi)
    · exact h
    · exact List.pairwise_lt_range
  have hall : (List.range l.sent.length).filterMap (l.sent[·]?) = l.sent := by
    rw [filterMap_range, List.take_length]
  have hpart := hplaces.filterMap (l.sent[·]?)
  rwa [hall] at hpart

/-- In order, the datagram taken last was sent last of those taken. -/
theorem Ordered.le_lastTaken (h : l'.Ordered) (hlater : Later l l') {i j : Nat}
    (hi : l.lastTaken = some i) (hj : l'.lastTaken = some j) : i ≤ j := by
  have hmem : i ∈ l'.takenPlaces := hlater.takenPlaces.subset (List.mem_of_getLast? hi)
  have hpairs : l'.takenPlaces.Pairwise (· ≤ ·) := List.Pairwise.sublist (List.take_sublist _ _) h
  obtain ⟨front, hfront⟩ := List.getLast?_eq_some_iff.mp hj
  rw [hfront] at hmem hpairs
  obtain hmem | hmem := List.mem_append.mp hmem
  · exact (List.pairwise_append.mp hpairs).2.2 i hmem j (List.mem_singleton.mpr rfl)
  · exact Nat.le_of_eq (List.mem_singleton.mp hmem)

/-- In order, what was sent last arrives last. -/
theorem Ordered.getLast? (h : l.Ordered) (harrived : l.sent.length - 1 ∈ l.arrivals) :
    l.arrivals.getLast? = some (l.sent.length - 1) := by
  obtain hnone | ⟨front, i, hfront⟩ := List.eq_nil_or_concat' l.arrivals
  · rw [hnone] at harrived
    cases harrived
  · have hlt : i < l.sent.length := l.sound i (by rw [hfront]; simp)
    rw [Ordered, hfront] at h
    rw [hfront] at harrived
    rw [hfront, List.getLast?_concat]
    obtain hmem | hmem := List.mem_append.mp harrived
    · have hle := (List.pairwise_append.mp h).2.2 _ hmem i (List.mem_singleton.mpr rfl)
      congr 1
      omega
    · rw [List.mem_singleton.mp hmem]

end Link

end Arinc.Datagrams
