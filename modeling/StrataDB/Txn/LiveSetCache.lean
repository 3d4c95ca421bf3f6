import StrataDB.Lib.List
import StrataDB.Lib.Transition

/-! The cache of resolved live sets (`txn/src/live_set_cache.rs`) under any
interleaving of its callers. A step is one action on shared memory: a lock, an
atomic operation on the byte counter, or a change under a lock already held; the
map lock is not held while a value is computed, the lock of a slot is. A slot
that has been evicted stays in the map until its evictor has taken the map lock
again, and its bytes stay charged until after that.

The cache is generic: a request has a key and computes a live set. Any one
computation may also fail on its own, as a read of a file does. -/

namespace StrataDB.Txn.LiveSetCache

open Lib

/-- `SlotState`. -/
inductive SlotState (β : Type)
  | vacant
  | cached (value : β)
  | evicted

/-- `Arc<Mutex<SlotState>>`; a slot is known by its position on the heap. -/
structure Slot (ι β : Type) where
  state : SlotState β
  lock : Option ι

/-- Where a call of `get_or_try_compute` stands. In `try_reserve_bytes` it
carries the value of the counter it last saw. -/
inductive Stage (β ε : Type)
  /-- About to lock the map. -/
  | lookup
  /-- Holds the map lock; reserves the charge of a new entry. -/
  | reserveEntry (seen : Option ℕ)
  /-- Holds the map lock and the reservation. -/
  | insert
  /-- Computes without the cache. -/
  | bypass
  /-- About to lock the slot it found. -/
  | lockSlot (slot : ℕ)
  /-- Holds the lock of an evicted slot; computes without the cache. -/
  | recompute (slot : ℕ)
  /-- Holds the lock of a vacant slot, as up to `evict`. -/
  | compute (slot : ℕ)
  | reservePayload (slot : ℕ) (value : β) (seen : Option ℕ)
  | publish (slot : ℕ) (value : β)
  | evict (slot : ℕ) (value : β)
  /-- `remove_evicted_slot`: about to lock the map. -/
  | remove (slot : ℕ) (value : β)
  /-- The slot is out of the map; its entry charge is still counted. -/
  | release (value : β)
  | done (result : Except ε β)

structure Call (ρ β ε : Type) where
  request : ρ
  stage : Stage β ε

/-- What the cache is used with: the key of a request and what it computes, the
charge of an entry, the size of a value and the budget. -/
structure Params (ρ κ β ε : Type) where
  key : ρ → κ
  compute : ρ → Except ε β
  entryCharge : κ → ℕ
  byteSize : β → ℕ
  byteBudget : ℕ

structure Cache (ι ρ κ β ε : Type) where
  slots : List (κ × ℕ)
  slotsLock : Option ι
  heap : ℕ → Slot ι β
  allocated : ℕ
  bytes : ℕ
  /-- The call each thread is in. -/
  calls : ι → Option (Call ρ β ε)

inductive Label (ι ρ ε : Type)
  /-- `get_or_try_compute` is called. -/
  | call (i : ι) (request : ρ)
  /-- The call takes its next action. A computation in it may fail. -/
  | advance (i : ι) (fault : Option ε)
  /-- The call returns. -/
  | finish (i : ι)

/-- `usize::MAX`. -/
def usizeMax : ℕ := 2 ^ 64 - 1

variable {ι ρ κ β ε : Type}

/-- One run of the closure. -/
def Params.runCompute (P : Params ρ κ β ε) (r : ρ) (fault : Option ε) : Except ε β :=
  fault.elim (P.compute r) .error

section
variable [DecidableEq ι]

namespace Cache

def goto (s : Cache ι ρ κ β ε) (i : ι) (r : ρ) (stage : Stage β ε) : Cache ι ρ κ β ε :=
  { s with calls := Function.update s.calls i (some ⟨r, stage⟩) }

def setSlot (s : Cache ι ρ κ β ε) (id : ℕ) (slot : Slot ι β) : Cache ι ρ κ β ε :=
  { s with heap := Function.update s.heap id slot }

/-- One action of `try_reserve_bytes`: the load, or the checks and the exchange,
which fails if the counter is no longer what was seen. -/
def tryReserveBytes (P : Params ρ κ β ε) (s : Cache ι ρ κ β ε) (charge : ℕ) (seen : Option ℕ)
    (retry : Option ℕ → Cache ι ρ κ β ε) (success : Cache ι ρ κ β ε → Cache ι ρ κ β ε)
    (failure : Cache ι ρ κ β ε) : Cache ι ρ κ β ε :=
  match seen with
  | none => retry (some s.bytes)
  | some charged =>
    if usizeMax < charged + charge ∨ P.byteBudget < charged + charge then failure
    else if s.bytes = charged then success { s with bytes := charged + charge }
    else retry (some s.bytes)

/-- `fetch_sub`, which wraps around. -/
def fetchSub (s : Cache ι ρ κ β ε) (charge : ℕ) : Cache ι ρ κ β ε :=
  { s with bytes := if charge ≤ s.bytes then s.bytes - charge
                    else s.bytes + (usizeMax + 1) - charge }

variable [DecidableEq κ]

omit [DecidableEq ι] in
/-- `slots.insert` of a new vacant slot. -/
def insertSlot (s : Cache ι ρ κ β ε) (key : κ) : Cache ι ρ κ β ε :=
  { s.setSlot s.allocated ⟨.vacant, none⟩ with
    slots := (key, s.allocated) :: s.slots.filter fun entry => entry.1 ≠ key
    allocated := s.allocated + 1 }

/-- The next action of the call of thread `i`. -/
def advance (P : Params ρ κ β ε) (s : Cache ι ρ κ β ε) (i : ι) (fault : Option ε)
    (r : ρ) : Stage β ε → Option (Cache ι ρ κ β ε)
  | .lookup =>
    if s.slotsLock = none then
      match s.slots.lookup (P.key r) with
      | some id => some (s.goto i r (.lockSlot id))
      | none => some { s.goto i r (.reserveEntry none) with slotsLock := some i }
    else none
  | .reserveEntry seen =>
    some (s.tryReserveBytes P (P.entryCharge (P.key r)) seen
      (fun seen => s.goto i r (.reserveEntry seen))
      (fun s => s.goto i r .insert)
      { s.goto i r .bypass with slotsLock := none })
  | .insert =>
    some { (s.insertSlot (P.key r)).goto i r (.lockSlot s.allocated) with slotsLock := none }
  | .bypass => some (s.goto i r (.done (P.runCompute r fault)))
  | .lockSlot id =>
    if (s.heap id).lock = none then
      match (s.heap id).state with
      | .cached value => some (s.goto i r (.done (.ok value)))
      | .evicted => some ((s.setSlot id ⟨.evicted, some i⟩).goto i r (.recompute id))
      | .vacant => some ((s.setSlot id ⟨.vacant, some i⟩).goto i r (.compute id))
    else none
  | .recompute id =>
    some ((s.setSlot id ⟨.evicted, none⟩).goto i r (.done (P.runCompute r fault)))
  | .compute id =>
    match P.runCompute r fault with
    | .error e => some ((s.setSlot id ⟨.vacant, none⟩).goto i r (.done (.error e)))
    | .ok value => some (s.goto i r (.reservePayload id value none))
  | .reservePayload id value seen =>
    some (s.tryReserveBytes P (P.byteSize value) seen
      (fun seen => s.goto i r (.reservePayload id value seen))
      (fun s => s.goto i r (.publish id value))
      (s.goto i r (.evict id value)))
  | .publish id value =>
    some ((s.setSlot id ⟨.cached value, none⟩).goto i r (.done (.ok value)))
  | .evict id value => some ((s.setSlot id ⟨.evicted, none⟩).goto i r (.remove id value))
  | .remove id value =>
    if s.slotsLock = none then
      let retained := s.slots.filter fun entry => entry.2 ≠ id
      if retained.length ≠ s.slots.length then
        some { s.goto i r (.release value) with slots := retained }
      else some (s.goto i r (.done (.ok value)))
    else none
  | .release value =>
    some ((s.fetchSub (P.entryCharge (P.key r))).goto i r (.done (.ok value)))
  | .done _ => none

def step (P : Params ρ κ β ε) (s : Cache ι ρ κ β ε) : Label ι ρ ε → Option (Cache ι ρ κ β ε)
  | .call i request => if (s.calls i).isNone then some (s.goto i request .lookup) else none
  | .advance i fault => (s.calls i).bind fun c => s.advance P i fault c.request c.stage
  | .finish i =>
    match s.calls i with
    | some ⟨_, .done _⟩ => some { s with calls := Function.update s.calls i none }
    | _ => none

omit [DecidableEq ι] [DecidableEq κ] in
/-- `LiveSetCache::new`, with no thread in a call. -/
def new : Cache ι ρ κ β ε := ⟨[], none, fun _ => ⟨.vacant, none⟩, 0, 0, fun _ => none⟩

end Cache

/-- One snapshot's cache. -/
def system (ι : Type) [DecidableEq ι] [DecidableEq κ] (P : Params ρ κ β ε) :
    TransitionSystem (Cache ι ρ κ β ε) (Label ι ρ ε) where
  init s := s = .new
  step := Cache.step P

end

/-! ### What is charged -/

/-- The bytes of a slot's payload. -/
def Params.payload (P : Params ρ κ β ε) : SlotState β → ℕ
  | .cached value => P.byteSize value
  | _ => 0

/-- What the counter holds for a call on its way: a reservation that no slot
shows yet, or the charge of a slot that is gone. -/
def Params.inFlight (P : Params ρ κ β ε) : Option (Call ρ β ε) → ℕ
  | some ⟨r, .insert⟩ => P.entryCharge (P.key r)
  | some ⟨_, .publish _ value⟩ => P.byteSize value
  | some ⟨r, .release _⟩ => P.entryCharge (P.key r)
  | _ => 0

namespace Cache

/-- The charge of one entry of the map and its payload. -/
def entryBytes (P : Params ρ κ β ε) (s : Cache ι ρ κ β ε) (entry : κ × ℕ) : ℕ :=
  P.entryCharge entry.1 + P.payload (s.heap entry.2).state

def retainedBytes (P : Params ρ κ β ε) (s : Cache ι ρ κ β ε) : ℕ :=
  (s.slots.map (s.entryBytes P)).sum

/-- Thread `i` holds the lock of a vacant slot of its key. -/
structure Fills (P : Params ρ κ β ε) (s : Cache ι ρ κ β ε) (i : ι) (r : ρ) (id : ℕ) : Prop where
  lock : (s.heap id).lock = some i
  vacant : (s.heap id).state = .vacant
  mem : (P.key r, id) ∈ s.slots

/-- What a call relies on at each stage. -/
def CallOk (P : Params ρ κ β ε) (s : Cache ι ρ κ β ε) (i : ι) (r : ρ) : Stage β ε → Prop
  | .lookup | .bypass => True
  | .reserveEntry _ | .insert => s.slotsLock = some i ∧ ∀ id, (P.key r, id) ∉ s.slots
  | .lockSlot id =>
    id < s.allocated ∧ ((P.key r, id) ∈ s.slots ∨ (s.heap id).state = .evicted)
  | .recompute id =>
    id < s.allocated ∧ (s.heap id).lock = some i ∧ (s.heap id).state = .evicted
  | .compute id => s.Fills P i r id
  | .reservePayload id value _ | .publish id value | .evict id value =>
    s.Fills P i r id ∧ P.compute r = .ok value
  | .remove id value =>
    id < s.allocated ∧ (s.heap id).state = .evicted ∧
      (∀ key, (key, id) ∈ s.slots → key = P.key r) ∧ P.compute r = .ok value
  | .release value => P.compute r = .ok value
  | .done result => ∀ value, result = .ok value → P.compute r = .ok value

/-- The map and its slots. -/
structure SlotsOk (P : Params ρ κ β ε) (s : Cache ι ρ κ β ε) : Prop where
  keys : (s.slots.map Prod.fst).Nodup
  ids : (s.slots.map Prod.snd).Nodup
  allocated : ∀ entry ∈ s.slots, entry.2 < s.allocated
  values : ∀ entry ∈ s.slots, ∀ value, (s.heap entry.2).state = .cached value →
    ∀ r, P.key r = entry.1 → P.compute r = .ok value

/-- What the other threads see of a step of thread `i`. -/
structure Frame (s s' : Cache ι ρ κ β ε) (i : ι) : Prop where
  slotsLock : ∀ j ≠ i, s.slotsLock = some j → s'.slotsLock = some j ∧ s'.slots = s.slots
  allocated : s.allocated ≤ s'.allocated
  locked : ∀ id < s.allocated, ∀ j ≠ i, (s.heap id).lock = some j → s'.heap id = s.heap id
  evicted : ∀ id < s.allocated, (s.heap id).state = .evicted → (s'.heap id).state = .evicted
  kept : ∀ entry ∈ s.slots, (s.heap entry.2).state ≠ .evicted → entry ∈ s'.slots
  old : ∀ entry ∈ s'.slots, entry.2 < s.allocated → entry ∈ s.slots

section
variable {P : Params ρ κ β ε} {s s' : Cache ι ρ κ β ε} {i j : ι} {r : ρ} {id : ℕ}

theorem Frame.fills (hf : Frame s s' i) (hs : s.SlotsOk P) (hj : j ≠ i) (h : s.Fills P j r id) :
    s'.Fills P j r id := by
  have hsame := hf.locked id (hs.allocated _ h.mem) j hj h.lock
  refine ⟨hsame ▸ h.lock, hsame ▸ h.vacant, hf.kept _ h.mem ?_⟩
  rw [h.vacant]
  nofun

theorem Frame.callOk (hf : Frame s s' i) (hs : s.SlotsOk P) (hj : j ≠ i) {stage : Stage β ε}
    (h : s.CallOk P j r stage) : s'.CallOk P j r stage := by
  cases stage with
  | lookup | bypass => trivial
  | reserveEntry _ | insert =>
    obtain ⟨hlock, hslots⟩ := hf.slotsLock j hj h.1
    exact ⟨hlock, hslots ▸ h.2⟩
  | lockSlot id =>
    refine ⟨h.1.trans_le hf.allocated, ?_⟩
    by_cases hev : (s.heap id).state = .evicted
    · exact .inr (hf.evicted id h.1 hev)
    · exact .inl (hf.kept _ (h.2.resolve_right hev) hev)
  | recompute id =>
    have hsame := hf.locked id h.1 j hj h.2.1
    exact ⟨h.1.trans_le hf.allocated, hsame ▸ h.2⟩
  | compute id => exact hf.fills hs hj h
  | reservePayload id _ _ | publish id _ | evict id _ => exact ⟨hf.fills hs hj h.1, h.2⟩
  | remove id _ =>
    exact ⟨h.1.trans_le hf.allocated, hf.evicted id h.1 h.2.1,
      fun key hkey => h.2.2.1 key (hf.old _ hkey h.1), h.2.2.2⟩
  | release _ => exact h
  | done _ => exact h

end

/-- The accounting invariant, with the calls on their way. -/
structure Inv [Fintype ι] (P : Params ρ κ β ε) (s : Cache ι ρ κ β ε) : Prop where
  slots : s.SlotsOk P
  calls : ∀ i c, s.calls i = some c → s.CallOk P i c.request c.stage
  bytes : s.bytes = s.retainedBytes P + ∑ i, P.inFlight (s.calls i)
  budget : s.bytes ≤ P.byteBudget

section
variable {P : Params ρ κ β ε} {s s' : Cache ι ρ κ β ε} {i : ι} {r : ρ} {id : ℕ}

/-- The map, its lock and the slots are as before. -/
structure SameSlots (s s' : Cache ι ρ κ β ε) : Prop where
  slots : s'.slots = s.slots
  slotsLock : s'.slotsLock = s.slotsLock
  heap : s'.heap = s.heap
  allocated : s'.allocated = s.allocated

theorem SameSlots.frame (h : SameSlots s s') : Frame s s' i where
  slotsLock _ _ hlock := ⟨h.slotsLock ▸ hlock, h.slots⟩
  allocated := h.allocated.ge
  locked _ _ _ _ _ := by rw [h.heap]
  evicted _ _ hev := h.heap ▸ hev
  kept _ hmem _ := h.slots ▸ hmem
  old _ hmem _ := h.slots ▸ hmem

theorem SameSlots.slotsOk (h : SameSlots s s') (hs : s.SlotsOk P) : s'.SlotsOk P where
  keys := h.slots ▸ hs.keys
  ids := h.slots ▸ hs.ids
  allocated := by
    rw [h.slots, h.allocated]
    exact hs.allocated
  values := by
    rw [h.slots, h.heap]
    exact hs.values

theorem SameSlots.retainedBytes (h : SameSlots s s') :
    s'.retainedBytes P = s.retainedBytes P := by
  unfold Cache.retainedBytes
  rw [h.slots]
  refine congrArg List.sum (List.map_congr_left fun entry _ => ?_)
  rw [entryBytes, entryBytes, h.heap]

variable {stage : Stage β ε}

theorem SameSlots.callOk (h : SameSlots s s') (hok : s.CallOk P i r stage) :
    s'.CallOk P i r stage := by
  have hfills : ∀ id, s.Fills P i r id → s'.Fills P i r id := fun id hfill =>
    ⟨h.heap ▸ hfill.lock, h.heap ▸ hfill.vacant, h.slots ▸ hfill.mem⟩
  cases stage with
  | compute id => exact hfills id hok
  | reservePayload id _ _ | publish id _ | evict id _ => exact ⟨hfills id hok.1, hok.2⟩
  | lookup | bypass => trivial
  | release _ | done _ => exact hok
  | reserveEntry _ | insert | lockSlot _ | recompute _ | remove _ _ =>
    simpa only [CallOk, h.slots, h.slotsLock, h.heap, h.allocated] using hok

@[simp] theorem setSlot_heap_self (s : Cache ι ρ κ β ε) (slot : Slot ι β) :
    (s.setSlot id slot).heap id = slot := Function.update_self ..

@[simp] theorem setSlot_heap_of_ne (s : Cache ι ρ κ β ε) {id' : ℕ} (h : id' ≠ id)
    (slot : Slot ι β) : (s.setSlot id slot).heap id' = s.heap id' := Function.update_of_ne h ..

theorem SlotsOk.key_eq (h : s.SlotsOk P) {key key' : κ} (hmem : (key, id) ∈ s.slots)
    (hmem' : (key', id) ∈ s.slots) : key = key' :=
  congrArg Prod.fst (List.inj_on_of_nodup_map h.ids hmem hmem' rfl)

theorem retainedBytes_setSlot {slot : Slot ι β}
    (h : P.payload slot.state = P.payload (s.heap id).state) :
    (s.setSlot id slot).retainedBytes P = s.retainedBytes P := by
  refine congrArg List.sum (List.map_congr_left fun entry _ => ?_)
  unfold entryBytes
  by_cases hne : entry.2 = id
  · subst hne
    rw [setSlot_heap_self, h]
  · rw [setSlot_heap_of_ne s hne]

/-- The entry of a slot taken out of what is retained. -/
theorem SlotsOk.retainedBytes_eq (h : s.SlotsOk P) {key : κ} (hmem : (key, id) ∈ s.slots) :
    s.retainedBytes P = P.entryCharge key + P.payload (s.heap id).state +
      ((s.slots.filter fun entry => entry.2 ≠ id).map (s.entryBytes P)).sum :=
  sum_map_eq_add_filter _ _ h.ids hmem

theorem SlotsOk.retainedBytes_publish (h : s.SlotsOk P) {key : κ} (hmem : (key, id) ∈ s.slots)
    (hvacant : (s.heap id).state = .vacant) (value : β) :
    (s.setSlot id ⟨.cached value, none⟩).retainedBytes P =
      s.retainedBytes P + P.byteSize value := by
  have hrest : (s.slots.filter fun entry => entry.2 ≠ id).map
      ((s.setSlot id ⟨.cached value, none⟩).entryBytes P) =
      (s.slots.filter fun entry => entry.2 ≠ id).map (s.entryBytes P) := by
    refine List.map_congr_left fun entry hentry => ?_
    have hne : entry.2 ≠ id := by simpa using (List.mem_filter.mp hentry).2
    rw [entryBytes, entryBytes, setSlot_heap_of_ne s hne]
  have hnew : (s.setSlot id ⟨.cached value, none⟩).retainedBytes P =
      P.entryCharge key + P.byteSize value +
        ((s.slots.filter fun entry => entry.2 ≠ id).map (s.entryBytes P)).sum := by
    rw [← hrest]
    refine (sum_map_eq_add_filter _ _ h.ids hmem).trans ?_
    rw [entryBytes, setSlot_heap_self]
    rfl
  rw [hnew, h.retainedBytes_eq hmem, hvacant]
  change _ = P.entryCharge key + 0 + _ + _
  omega

/-- `try_reserve_bytes`: either nothing is charged, or the whole charge is and
the budget still holds. -/
theorem tryReserveBytes_cases {Q : Cache ι ρ κ β ε → Prop} {charge : ℕ} {seen : Option ℕ}
    {retry : Option ℕ → Cache ι ρ κ β ε} {success : Cache ι ρ κ β ε → Cache ι ρ κ β ε}
    {failure : Cache ι ρ κ β ε} (hretry : ∀ seen, Q (retry seen)) (hfailure : Q failure)
    (hsuccess : s.bytes + charge ≤ P.byteBudget →
      Q (success { s with bytes := s.bytes + charge })) :
    Q (s.tryReserveBytes P charge seen retry success failure) := by
  unfold tryReserveBytes
  split
  · exact hretry _
  · split_ifs with hover hsame
    · exact hfailure
    · subst hsame
      exact hsuccess (by omega)
    · exact hretry _

variable [DecidableEq ι]

section
variable (s : Cache ι ρ κ β ε) (stage : Stage β ε)

@[simp] theorem goto_slots : (s.goto i r stage).slots = s.slots := rfl
@[simp] theorem goto_heap : (s.goto i r stage).heap = s.heap := rfl
@[simp] theorem goto_allocated : (s.goto i r stage).allocated = s.allocated := rfl

end

theorem sameSlots_goto (s : Cache ι ρ κ β ε) (stage : Stage β ε) :
    SameSlots s (s.goto i r stage) := ⟨rfl, rfl, rfl, rfl⟩

variable [Fintype ι]

/-- A step of thread `i` that moves the counter with what is retained and what
the thread itself has on its way. -/
theorem Inv.of_step (h : s.Inv P) {c : Option (Call ρ β ε)}
    (hcalls : s'.calls = Function.update s.calls i c) (hf : Frame s s' i) (hs : s'.SlotsOk P)
    (hok : ∀ c', c = some c' → s'.CallOk P i c'.request c'.stage)
    (hbytes : s'.bytes + s.retainedBytes P + P.inFlight (s.calls i) =
      s.bytes + s'.retainedBytes P + P.inFlight c)
    (hbudget : s'.bytes ≤ P.byteBudget) : s'.Inv P := by
  refine ⟨hs, fun j c' hj => ?_, ?_, hbudget⟩
  · by_cases hji : j = i
    · subst hji
      rw [hcalls, Function.update_self] at hj
      exact hok c' hj
    · rw [hcalls, Function.update_of_ne hji] at hj
      exact hf.callOk h.slots hji (h.calls j c' hj)
  · have hsum := sum_update_add P.inFlight s.calls i c
    have hold := h.bytes
    rw [hcalls]
    omega

/-- A step that leaves the map and the slots alone. -/
theorem Inv.sameSlots (h : s.Inv P)
    (hcalls : s'.calls = Function.update s.calls i (some ⟨r, stage⟩)) (hsame : SameSlots s s')
    (hok : s.CallOk P i r stage)
    (hbytes : s'.bytes + P.inFlight (s.calls i) = s.bytes + P.inFlight (some ⟨r, stage⟩))
    (hbudget : s'.bytes ≤ P.byteBudget) : s'.Inv P := by
  refine h.of_step hcalls hsame.frame (hsame.slotsOk h.slots) ?_ ?_ hbudget
  · rintro c' ⟨⟩
    exact hsame.callOk hok
  · rw [hsame.retainedBytes]
    omega

/-- The counter stays as it is, too. -/
theorem Inv.goto (h : s.Inv P) (hok : s.CallOk P i r stage)
    (hflight : P.inFlight (s.calls i) = P.inFlight (some ⟨r, stage⟩)) : (s.goto i r stage).Inv P :=
  h.sameSlots rfl (sameSlots_goto s stage) hok (congrArg (s.bytes + ·) hflight) h.budget

/-- A change of a slot that no other thread has locked, by which no payload gets
lost and none but the thread's reservation gets stored. -/
theorem Inv.setSlot (h : s.Inv P) {slot : Slot ι β}
    (hlock : (s.heap id).lock = none ∨ (s.heap id).lock = some i)
    (hev : (s.heap id).state = .evicted → slot.state = .evicted)
    (hvalue : ∀ value, slot.state = .cached value → ∀ key, (key, id) ∈ s.slots →
      ∀ r', P.key r' = key → P.compute r' = .ok value)
    (hok : (s.setSlot id slot).CallOk P i r stage)
    (hbytes : s.retainedBytes P + P.inFlight (s.calls i) =
      (s.setSlot id slot).retainedBytes P + P.inFlight (some ⟨r, stage⟩)) :
    ((s.setSlot id slot).goto i r stage).Inv P := by
  have hsame := sameSlots_goto (i := i) (r := r) (s.setSlot id slot) stage
  have hf : Frame s (s.setSlot id slot) i :=
    { slotsLock := fun _ _ hj => ⟨hj, rfl⟩
      allocated := Nat.le_refl _
      locked := by
        intro id' _ j hj hheld
        refine Function.update_of_ne ?_ _ _
        rintro rfl
        rcases hlock with hfree | hmine
        · simp [hfree] at hheld
        · exact hj (Option.some.inj (hheld.symm.trans hmine))
      evicted := by
        intro id' _ hid
        by_cases hne : id' = id
        · subst hne
          simpa using hev hid
        · simpa [hne] using hid
      kept := fun _ hmem _ => hmem
      old := fun _ hmem _ => hmem }
  have hs : (s.setSlot id slot).SlotsOk P :=
    { keys := h.slots.keys
      ids := h.slots.ids
      allocated := h.slots.allocated
      values := by
        rintro ⟨key, id'⟩ hmem value hstate
        by_cases hne : id' = id
        · subst hne
          exact hvalue value (by simpa using hstate) key hmem
        · exact h.slots.values _ hmem value (by simpa [hne] using hstate) }
  refine h.of_step rfl ?_ (hsame.slotsOk hs) ?_ ?_ h.budget
  · exact ⟨hf.slotsLock, hf.allocated, hf.locked, hf.evicted, hf.kept, hf.old⟩
  · rintro c' ⟨⟩
    exact hsame.callOk hok
  · rw [hsame.retainedBytes]
    change s.bytes + _ + _ = _
    omega

/-! ### One step -/

omit [Fintype ι] in
/-- The thread takes the map lock, or gives up its own. -/
theorem frame_slotsLock {lock : Option ι} {held : Option ι} (hheld : s.slotsLock = held)
    (hmine : ∀ j ∈ held, j = i) :
    Frame s { s.goto i r stage with slotsLock := lock } i where
  slotsLock j hj hlock := absurd (hmine j (hheld ▸ hlock)) hj
  allocated := Nat.le_refl _
  locked _ _ _ _ _ := rfl
  evicted _ _ hev := hev
  kept _ hmem _ := hmem
  old _ hmem _ := hmem

omit [DecidableEq ι] in
/-- What a call has on its way is part of the counter. -/
theorem Inv.inFlight_le (h : s.Inv P) (i : ι) : P.inFlight (s.calls i) ≤ s.bytes := by
  have hle := le_sum_threads P.inFlight s.calls i
  have hbytes := h.bytes
  omega

/-- No entry of the map has the key of a call that is about to insert one. -/
theorem Inv.insert (h : s.Inv P) (hok : s.CallOk P i r .insert) [DecidableEq κ]
    (hcall : s.calls i = some ⟨r, .insert⟩) :
    Cache.Inv P { (s.insertSlot (P.key r)).goto i r (.lockSlot s.allocated) with
      slotsLock := none } := by
  obtain ⟨hlock, habsent⟩ := hok
  unfold insertSlot
  have hkeep : (s.slots.filter fun entry => entry.1 ≠ P.key r) = s.slots :=
    List.filter_eq_self.mpr fun entry hentry =>
      decide_eq_true fun heq => habsent entry.2 (heq ▸ hentry)
  rw [hkeep]
  have hfresh : ∀ entry ∈ s.slots, entry.2 ≠ s.allocated := fun entry hentry =>
    (h.slots.allocated entry hentry).ne
  have hheap : ∀ entry ∈ s.slots,
      (s.setSlot s.allocated ⟨.vacant, none⟩).heap entry.2 = s.heap entry.2 :=
    fun entry hentry => setSlot_heap_of_ne s (hfresh entry hentry) _
  refine h.of_step rfl ?frame ?slots ?call ?bytes h.budget
  case frame =>
    exact
      { slotsLock := fun j hj hheld => absurd (Option.some.inj (hheld.symm.trans hlock)) hj
        allocated := Nat.le_succ _
        locked := fun id hid _ _ _ => setSlot_heap_of_ne s hid.ne _
        evicted := fun id hid hev =>
          (congrArg Slot.state (setSlot_heap_of_ne s hid.ne _)).trans hev
        kept := fun _ hmem _ => List.mem_cons_of_mem _ hmem
        old := fun entry hmem hold => (List.mem_cons.mp hmem).resolve_left fun heq =>
          absurd hold (heq ▸ Nat.lt_irrefl _) }
  case slots =>
    refine ⟨List.nodup_cons.mpr ⟨?_, h.slots.keys⟩, List.nodup_cons.mpr ⟨?_, h.slots.ids⟩,
      List.forall_mem_cons.mpr ⟨Nat.lt_succ_self _, fun entry hentry =>
        Nat.lt_succ_of_lt (h.slots.allocated entry hentry)⟩,
      List.forall_mem_cons.mpr ⟨fun value hstate => ?_, fun entry hentry value hstate => ?_⟩⟩
    · rintro hmem
      obtain ⟨⟨_, id⟩, hentry, rfl⟩ := List.mem_map.mp hmem
      exact habsent id hentry
    · rintro hmem
      obtain ⟨entry, hentry, heq⟩ := List.mem_map.mp hmem
      exact hfresh entry hentry heq
    · simp at hstate
    · refine h.slots.values entry hentry value ?_
      rw [← hheap entry hentry]
      exact hstate
  case call =>
    rintro c' ⟨⟩
    exact ⟨Nat.lt_succ_self _, .inl List.mem_cons_self⟩
  case bytes =>
    have hold : s.slots.map ((s.setSlot s.allocated ⟨.vacant, none⟩).entryBytes P) =
        s.slots.map (s.entryBytes P) := List.map_congr_left fun entry hentry => by
      rw [entryBytes, entryBytes, hheap entry hentry]
    have hnew : (s.setSlot s.allocated ⟨.vacant, none⟩).entryBytes P (P.key r, s.allocated) =
        P.entryCharge (P.key r) := by
      rw [entryBytes, setSlot_heap_self]
      rfl
    rw [hcall]
    change s.bytes + (s.slots.map (s.entryBytes P)).sum + P.entryCharge (P.key r) =
      s.bytes + (entryBytes P (s.setSlot s.allocated ⟨.vacant, none⟩) (P.key r, s.allocated) +
        (s.slots.map (entryBytes P (s.setSlot s.allocated ⟨.vacant, none⟩))).sum) + 0
    rw [hold, hnew]
    omega

/-- The entry of an evicted slot leaves the map; its charge is now on its way. -/
theorem Inv.remove (h : s.Inv P) {value : β} (hlock : s.slotsLock = none)
    (hok : s.CallOk P i r (.remove id value)) (hcall : s.calls i = some ⟨r, .remove id value⟩)
    (hremoved : (s.slots.filter fun entry => entry.2 ≠ id).length ≠ s.slots.length) :
    Cache.Inv P { s.goto i r (.release value) with
      slots := s.slots.filter fun entry => entry.2 ≠ id } := by
  obtain ⟨hid, hev, hkey, hvalue⟩ := hok
  have hsub : (s.slots.filter fun entry => entry.2 ≠ id).Sublist s.slots := List.filter_sublist
  obtain ⟨key, hmem⟩ : ∃ key, (key, id) ∈ s.slots := by
    rw [ne_eq, List.length_filter_eq_length_iff] at hremoved
    push Not at hremoved
    obtain ⟨⟨key, id'⟩, hmem, heq⟩ := hremoved
    obtain rfl : id' = id := by simpa using heq
    exact ⟨key, hmem⟩
  obtain rfl := hkey key hmem
  refine h.of_step rfl ?frame ?slots ?call ?bytes h.budget
  case frame =>
    exact
      { slotsLock := fun j _ hheld => by simp [hlock] at hheld
        allocated := Nat.le_refl _
        locked := fun _ _ _ _ _ => rfl
        evicted := fun _ _ hev' => hev'
        kept := fun entry hentry hne => List.mem_filter.mpr ⟨hentry, decide_eq_true fun heq =>
          hne (heq ▸ hev)⟩
        old := fun _ hentry _ => hsub.subset hentry }
  case slots =>
    exact ⟨h.slots.keys.sublist (hsub.map _), h.slots.ids.sublist (hsub.map _),
      fun entry hentry => h.slots.allocated entry (hsub.subset hentry),
      fun entry hentry => h.slots.values entry (hsub.subset hentry)⟩
  case call =>
    rintro c' ⟨⟩
    exact hvalue
  case bytes =>
    rw [hcall, h.slots.retainedBytes_eq hmem, hev]
    change s.bytes + (_ + 0 + _) + 0 = s.bytes + _ + P.entryCharge (P.key r)
    have hrest : Cache.retainedBytes P { s.goto i r (.release value) with
        slots := s.slots.filter fun entry => entry.2 ≠ id } =
        ((s.slots.filter fun entry => entry.2 ≠ id).map (s.entryBytes P)).sum := rfl
    omega

theorem compute_of_runCompute {fault : Option ε} {value : β}
    (h : P.runCompute r fault = .ok value) : P.compute r = .ok value := by
  cases fault with
  | none => exact h
  | some e => cases h

variable [DecidableEq κ]

section

variable {fault : Option ε} {seen : Option ℕ} {id : ℕ} {value : β}

/-- A lookup goes on to the slot it found, or takes the lock of the map to add one. -/
theorem Inv.advance_lookup (h : s.Inv P)
    (hcall : s.calls i = some ⟨r, .lookup⟩) (hs : s.advance P i fault r .lookup = some s') :
    s'.Inv P := by
  obtain ⟨hfree, hs⟩ := Option.ite_none_right_eq_some.mp hs
  split at hs
  next id hid =>
    cases hs
    have hmem : (P.key r, id) ∈ s.slots := by
      obtain ⟨before, after, heq, -⟩ := List.lookup_eq_some_iff.mp hid
      simp [heq]
    exact h.goto ⟨h.slots.allocated _ hmem, .inl hmem⟩ (by rw [hcall]; rfl)
  next habsent =>
    cases hs
    refine h.of_step rfl (frame_slotsLock hfree nofun)
      ⟨h.slots.1, h.slots.2, h.slots.3, h.slots.4⟩
      ?_ ?_ h.budget
    · rintro c' ⟨⟩
      refine ⟨rfl, fun id hmem => ?_⟩
      simpa using List.lookup_eq_none_iff.mp habsent _ hmem
    · rw [hcall]
      rfl

/-- The charge of an entry is tried again, given up or made. -/
theorem Inv.advance_reserveEntry (h : s.Inv P)
    (hcall : s.calls i = some ⟨r, .reserveEntry seen⟩)
    (hs : s.advance P i fault r (.reserveEntry seen) = some s') :
    s'.Inv P := by
  have hok : s.CallOk P i r (.reserveEntry seen) := h.calls i _ hcall
  cases hs
  refine tryReserveBytes_cases (fun _ => h.goto hok (by rw [hcall]; rfl)) ?_ fun hbudget => ?_
  · refine h.of_step rfl (frame_slotsLock hok.1 (by simp))
      ⟨h.slots.1, h.slots.2, h.slots.3, h.slots.4⟩
      ?_ ?_ h.budget
    · rintro c' ⟨⟩
      trivial
    · rw [hcall]
      rfl
  · exact h.sameSlots rfl ⟨rfl, rfl, rfl, rfl⟩ hok (by rw [hcall]; rfl) hbudget

/-- A locked slot is filled, evicted or to be computed. -/
theorem Inv.advance_lockSlot (h : s.Inv P)
    (hcall : s.calls i = some ⟨r, .lockSlot id⟩)
    (hs : s.advance P i fault r (.lockSlot id) = some s') :
    s'.Inv P := by
  have hok : s.CallOk P i r (.lockSlot id) := h.calls i _ hcall
  obtain ⟨hfree, hs⟩ := Option.ite_none_right_eq_some.mp hs
  split at hs
  next value hstate =>
    cases hs
    refine h.goto ?_ (by rw [hcall]; rfl)
    rintro _ ⟨⟩
    have hmem := hok.2.resolve_right (by simp [hstate])
    exact h.slots.values _ hmem value hstate r rfl
  next hstate =>
    cases hs
    refine h.setSlot (.inl hfree) (fun _ => rfl) nofun ⟨hok.1, ?_⟩ ?_
    · simp
    · rw [retainedBytes_setSlot (by rw [hstate]), hcall]
      rfl
  next hstate =>
    cases hs
    have hmem := hok.2.resolve_right (by simp [hstate])
    refine h.setSlot (.inl hfree) (fun hev => by simp [hstate] at hev) nofun
      ⟨by simp, by simp, hmem⟩ ?_
    rw [retainedBytes_setSlot (by rw [hstate]), hcall]
    rfl

theorem Inv.advance_compute (h : s.Inv P)
    (hcall : s.calls i = some ⟨r, .compute id⟩)
    (hs : s.advance P i fault r (.compute id) = some s') :
    s'.Inv P := by
  have hok : s.CallOk P i r (.compute id) := h.calls i _ hcall
  simp only [Cache.advance] at hs
  split at hs
  next e herror =>
    cases hs
    refine h.setSlot (.inr hok.lock) (fun hev => by simp [hok.vacant] at hev) nofun nofun ?_
    rw [retainedBytes_setSlot (by rw [hok.vacant]), hcall]
    rfl
  next value hvalue =>
    cases hs
    exact h.goto ⟨hok, compute_of_runCompute hvalue⟩ (by rw [hcall]; rfl)

/-- The value is published in the slot that was kept for it. -/
theorem Inv.advance_publish (hkey : ∀ r r', P.key r = P.key r' → P.compute r = P.compute r')
    (h : s.Inv P)
    (hcall : s.calls i = some ⟨r, .publish id value⟩)
    (hs : s.advance P i fault r (.publish id value) = some s') :
    s'.Inv P := by
  have hok : s.CallOk P i r (.publish id value) := h.calls i _ hcall
  cases hs
  obtain ⟨hfills, hvalue⟩ := hok
  refine h.setSlot (.inr hfills.lock) (fun hev => by simp [hfills.vacant] at hev) ?_ ?_ ?_
  · rintro _ ⟨⟩ key hmem r' rfl
    exact (hkey r' r (h.slots.key_eq hmem hfills.mem)).trans hvalue
  · rintro _ ⟨⟩
    exact hvalue
  · rw [h.slots.retainedBytes_publish hfills.mem hfills.vacant, hcall]
    rfl

theorem Inv.advance_evict (h : s.Inv P)
    (hcall : s.calls i = some ⟨r, .evict id value⟩)
    (hs : s.advance P i fault r (.evict id value) = some s') :
    s'.Inv P := by
  have hok : s.CallOk P i r (.evict id value) := h.calls i _ hcall
  cases hs
  obtain ⟨hfills, hvalue⟩ := hok
  refine h.setSlot (.inr hfills.lock) (fun _ => rfl) nofun
    ⟨h.slots.allocated _ hfills.mem, by simp, fun key hmem => h.slots.key_eq hmem hfills.mem,
      hvalue⟩ ?_
  rw [retainedBytes_setSlot (by rw [hfills.vacant]; rfl), hcall]
  rfl

theorem Inv.advance_remove (h : s.Inv P)
    (hcall : s.calls i = some ⟨r, .remove id value⟩)
    (hs : s.advance P i fault r (.remove id value) = some s') :
    s'.Inv P := by
  have hok : s.CallOk P i r (.remove id value) := h.calls i _ hcall
  obtain ⟨hfree, hs⟩ := Option.ite_none_right_eq_some.mp hs
  split_ifs at hs with hremoved
  · cases hs
    exact h.remove hfree hok hcall hremoved
  · cases hs
    refine h.goto ?_ (by rw [hcall]; rfl)
    rintro _ ⟨⟩
    exact hok.2.2.2

/-- The charge of a removed entry is given back. -/
theorem Inv.advance_release (h : s.Inv P)
    (hcall : s.calls i = some ⟨r, .release value⟩)
    (hs : s.advance P i fault r (.release value) = some s') :
    s'.Inv P := by
  have hok : s.CallOk P i r (.release value) := h.calls i _ hcall
  cases hs
  have hle := h.inFlight_le i
  rw [hcall] at hle
  have hle : P.entryCharge (P.key r) ≤ s.bytes := hle
  refine h.sameSlots rfl ⟨rfl, rfl, rfl, rfl⟩ ?_ ?_ ?_
  · rintro _ ⟨⟩
    exact hok
  · rw [hcall]
    change (s.fetchSub _).bytes + P.entryCharge (P.key r) = s.bytes
    simp only [fetchSub, if_pos hle]
    omega
  · have hbudget := h.budget
    change (s.fetchSub _).bytes ≤ _
    simp only [fetchSub, if_pos hle]
    omega

theorem Inv.advance (hkey : ∀ r r', P.key r = P.key r' → P.compute r = P.compute r') (h : s.Inv P)
    (hcall : s.calls i = some ⟨r, stage⟩) (hs : s.advance P i fault r stage = some s') :
    s'.Inv P := by
  have hok : s.CallOk P i r stage := h.calls i _ hcall
  cases stage with
  | lookup => exact h.advance_lookup hcall hs
  | reserveEntry => exact h.advance_reserveEntry hcall hs
  | insert =>
    cases hs
    exact h.insert hok hcall
  | bypass =>
    cases hs
    exact h.goto (fun _ => compute_of_runCompute) (by rw [hcall]; rfl)
  | lockSlot => exact h.advance_lockSlot hcall hs
  | recompute id =>
    cases hs
    refine h.setSlot (.inr hok.2.1) (fun _ => rfl) nofun (fun _ => compute_of_runCompute) ?_
    rw [retainedBytes_setSlot (by rw [hok.2.2]), hcall]
    rfl
  | compute => exact h.advance_compute hcall hs
  | reservePayload id value seen =>
    cases hs
    refine tryReserveBytes_cases (fun _ => h.goto hok (by rw [hcall]; rfl))
      (h.goto hok (by rw [hcall]; rfl)) fun hbudget => ?_
    exact h.sameSlots rfl ⟨rfl, rfl, rfl, rfl⟩ hok (by rw [hcall]; rfl) hbudget
  | publish => exact h.advance_publish hkey hcall hs
  | evict => exact h.advance_evict hcall hs
  | remove => exact h.advance_remove hcall hs
  | release => exact h.advance_release hcall hs
  | done result => cases hs

end

theorem Inv.step (hkey : ∀ r r', P.key r = P.key r' → P.compute r = P.compute r')
    (h : s.Inv P) {a : Label ι ρ ε} (hs : s.step P a = some s') : s'.Inv P := by
  cases a with
  | call i request =>
    obtain ⟨hnone, hs⟩ := Option.ite_none_right_eq_some.mp hs
    cases hs
    exact h.goto trivial (by rw [Option.isNone_iff_eq_none.mp hnone]; rfl)
  | advance i fault =>
    obtain ⟨⟨r, stage⟩, hcall, hs⟩ := Option.bind_eq_some_iff.mp hs
    exact h.advance hkey hcall hs
  | finish i =>
    simp only [Cache.step] at hs
    split at hs
    next r result hcall =>
      cases hs
      have hsame : SameSlots s { s with calls := Function.update s.calls i none } :=
        ⟨rfl, rfl, rfl, rfl⟩
      refine h.of_step rfl hsame.frame (hsame.slotsOk h.slots) nofun ?_ h.budget
      rw [hcall, hsame.retainedBytes]
      rfl
    next => cases hs

omit [DecidableEq ι] [DecidableEq κ] in
theorem inv_new : (new : Cache ι ρ κ β ε).Inv P where
  slots := ⟨List.nodup_nil, List.nodup_nil, nofun, nofun⟩
  calls := nofun
  bytes := (Finset.sum_const_zero).symm.trans (Nat.zero_add _).symm
  budget := Nat.zero_le _

theorem inv_of_reachable (hkey : ∀ r r', P.key r = P.key r' → P.compute r = P.compute r')
    (hs : (system ι P).Reachable s) : s.Inv P :=
  hs.invariant (fun _ h0 => h0 ▸ inv_new) fun _ _ _ _ h ha => h.step hkey ha

end

variable {P : Params ρ κ β ε} {s : Cache ι ρ κ β ε}

/-- An action by which a call fails caches nothing. -/
theorem cached_of_error [DecidableEq ι] [DecidableEq κ] {s' : Cache ι ρ κ β ε} {i : ι}
    {fault : Option ε} {r : ρ} {e : ε} (hs : s.step P (.advance i fault) = some s')
    (herror : s'.calls i = some ⟨r, .done (.error e)⟩) {id : ℕ} {value : β}
    (hcached : (s'.heap id).state = .cached value) : (s.heap id).state = .cached value := by
  obtain ⟨⟨r', stage⟩, -, hs⟩ := Option.bind_eq_some_iff.mp hs
  -- no slot is written but with another state than a cached one
  have hwrite : ∀ {slot : Slot ι β} {id' : ℕ},
      ((s.setSlot id' slot).heap id).state = .cached value → (∀ v, slot.state ≠ .cached v) →
        (s.heap id).state = .cached value := by
    intro slot id' hcached hslot
    by_cases hne : id = id'
    · subst hne
      rw [setSlot_heap_self] at hcached
      exact absurd hcached (hslot value)
    · rwa [setSlot_heap_of_ne s hne] at hcached
  cases stage with
  | publish id' v =>
    cases hs
    simp [goto] at herror
  | lookup =>
    obtain ⟨-, hs⟩ := Option.ite_none_right_eq_some.mp hs
    split at hs <;> (cases hs; exact hcached)
  | reserveEntry seen | reservePayload _ _ seen =>
    cases hs
    revert hcached
    refine tryReserveBytes_cases
      (Q := fun t => (t.heap id).state = .cached value → (s.heap id).state = .cached value)
      ?_ ?_ ?_
    · exact fun _ hcached => hcached
    · exact fun hcached => hcached
    · exact fun _ hcached => hcached
  | insert | recompute _ | evict _ _ =>
    cases hs
    exact hwrite hcached nofun
  | bypass | release _ =>
    cases hs
    exact hcached
  | lockSlot id' =>
    obtain ⟨-, hs⟩ := Option.ite_none_right_eq_some.mp hs
    split at hs <;> cases hs
    · exact hcached
    · exact hwrite hcached nofun
    · exact hwrite hcached nofun
  | compute id' =>
    simp only [Cache.advance] at hs
    split at hs <;> cases hs
    · exact hwrite hcached nofun
    · exact hcached
  | remove id' v =>
    obtain ⟨-, hs⟩ := Option.ite_none_right_eq_some.mp hs
    split_ifs at hs <;> (cases hs; exact hcached)
  | done result => cases hs

/-- What a caller and the accounting see of the cache in one of its states. -/
structure Transparent (P : Params ρ κ β ε) (s : Cache ι ρ κ β ε) [DecidableEq ι]
    [DecidableEq κ] : Prop where
  /-- A successful call returns what its own closure would have. -/
  result : ∀ i r value, s.calls i = some ⟨r, .done (.ok value)⟩ → P.compute r = .ok value
  /-- Only what the closure of its key returns is cached. -/
  cached : ∀ key id, (key, id) ∈ s.slots → ∀ value, (s.heap id).state = .cached value →
    ∀ r, P.key r = key → P.compute r = .ok value
  /-- A call that fails caches nothing. -/
  failed : ∀ i fault s' r e, s.step P (.advance i fault) = some s' →
    s'.calls i = some ⟨r, .done (.error e)⟩ → ∀ id value,
      (s'.heap id).state = .cached value → (s.heap id).state = .cached value
  budget : s.bytes ≤ P.byteBudget
  /-- No subtraction from the counter wraps around. -/
  subtract : ∀ i r value, s.calls i = some ⟨r, .release value⟩ →
    P.entryCharge (P.key r) ≤ s.bytes
  /-- With no call on its way the counter is the sum over the slots. -/
  account : (∀ i, s.calls i = none) → s.bytes =
    (s.slots.map fun entry => P.entryCharge entry.1 + P.payload (s.heap entry.2).state).sum
  /-- A slot is shared by requests of one key. -/
  shared : ∀ r r' id, (P.key r, id) ∈ s.slots → (P.key r', id) ∈ s.slots → P.key r = P.key r'

theorem transparent_of_reachable [DecidableEq ι] [Fintype ι] [DecidableEq κ]
    (hkey : ∀ r r', P.key r = P.key r' → P.compute r = P.compute r')
    (hs : (system ι P).Reachable s) : s.Transparent P := by
  have h := inv_of_reachable hkey hs
  exact
    { result := fun i r value hcall => h.calls i _ hcall value rfl
      cached := fun key id hmem value hstate r hr => h.slots.values _ hmem value hstate r hr
      failed := fun i fault s' r e hstep herror id value => cached_of_error hstep herror
      budget := h.budget
      subtract := fun i r value hcall => by
        have hle := h.inFlight_le i
        rwa [hcall] at hle
      account := fun hidle => by
        rw [h.bytes, Finset.sum_eq_zero fun i _ => by rw [hidle i]; rfl]
        rfl
      shared := fun r r' id hmem hmem' => h.slots.key_eq hmem hmem' }

end Cache

end StrataDB.Txn.LiveSetCache
