/-
  The two packet queues of the network core: `enqueue` and `dequeue` of `rust_net.rs`.

  Each direction has a ring of eight packets. A packet keeps its length and an array that
  still holds bytes of earlier, longer packets beyond that length. Pointers are addresses,
  because the code compares the regions a call names; the states of network cores are found
  by their address (`World`), and a call that names another core's state leaves this one
  alone.

  The abstract view is one log for each direction: the frames accepted and the frames
  delivered, in order. What is accepted is what was delivered followed by what the ring holds
  (`Tracks`), for every run of calls with any arguments.
-/
import ArgusOs.Lib.Bytes
import ArgusOs.Lib.Ring
import ArgusOs.Net.Inspect

namespace ArgusOs.Net

open Lib Function

variable {base : UInt64}

def queueCapacity : Nat := 8
def stateMagic : UInt64 := 0x41524755534E4554
/-- `size_of::<NetState>()`. -/
def netStateSize : Nat := 24288
/-- `size_of::<u64>()`. -/
def wordSize : Nat := 8

structure Packet where
  length : UInt16
  bytes : Nat → UInt8

structure PacketQueue where
  packets : Fin 8 → Packet
  head : UInt8
  tail : UInt8
  count : UInt8

def PacketQueue.zero : PacketQueue := ⟨fun _ => ⟨0, fun _ => 0⟩, 0, 0, 0⟩

inductive Direction where
  | ingress
  | egress
  deriving DecidableEq, Repr

structure NetState where
  magic : UInt64
  queues : Direction → PacketQueue

/-- The state found at each address. States at two addresses are taken not to share memory,
    also where their regions would. -/
abbrev World := UInt64 → NetState

variable {world : World} {d : Direction}

/-! ## Pointers -/

/-- Non-null, 16-byte aligned, and not reaching beyond the address space. -/
def validStatePointer (state : UInt64) : Bool :=
  state ≠ 0 ∧ state &&& 15 = 0 ∧ state.toNat + netStateSize < 2 ^ 64

def rangesOverlap (first firstLength second secondLength : Nat) : Bool :=
  if first + firstLength ≥ 2 ^ 64 then true
  else if second + secondLength ≥ 2 ^ 64 then true
  else first < second + secondLength ∧ second < first + firstLength

/-- `state_mut`. -/
def stateMut (world : World) (state : UInt64) : Option NetState :=
  if validStatePointer state = false then none
  else if (world state).magic ≠ stateMagic then none
  else some (world state)

def selectQueue (queue : UInt32) : Option Direction :=
  if queue = 0 then some .ingress
  else if queue = 1 then some .egress
  else none

/-- Replace one queue of one state. -/
def World.setQueue (world : World) (state : UInt64) (d : Direction) (q : PacketQueue) : World :=
  update world state
    { world state with queues := update (world state).queues d q }

/-! ## Calls -/

/-- `initialize`. -/
def netInitialize (world : World) (state : UInt64) (capacity : UInt64) : World × NetStatus :=
  if validStatePointer state = false ∨ capacity.toNat < netStateSize then (world, .invalid)
  else (update world state ⟨stateMagic, fun _ => .zero⟩, .ok)

/-- A queue with a frame stored at its head. -/
def PacketQueue.stored (q : PacketQueue) (frame : List UInt8) : PacketQueue :=
  let slot := q.head.toNat
  let packet := q.packets (Fin.ofNat 8 slot)
  { q with
    packets := update q.packets (Fin.ofNat 8 slot)
      { length := UInt16.ofNat frame.length
        bytes := fun i => if i < frame.length then frame.getD i 0 else packet.bytes i }
    head := UInt8.ofNat ((slot + 1) % queueCapacity)
    count := q.count + 1 }

/-- The two bounds checked before a frame is stored; `none` is `STATE_ERROR`. -/
def PacketQueue.push (q : PacketQueue) (frame : List UInt8) : Option PacketQueue :=
  if q.head.toNat ≥ queueCapacity then none
  else if frame.length > maxFrame then none
  else some (q.stored frame)

/-- `frame` is the address of the bytes. -/
def enqueue (world : World) (state : UInt64) (queue : UInt32) (frame : UInt64)
    (bytes : Nat → UInt8) (length : UInt64) : World × NetStatus :=
  if frame = 0 ∨ length = 0 ∨ length.toNat > maxFrame then (world, .invalid)
  else if validStatePointer state = false ∨
      rangesOverlap state.toNat netStateSize frame.toNat length.toNat then (world, .invalid)
  else
    match inspectSlice (bytesOf bytes length.toNat) with
    | .error status => (world, status)
    | .ok _ =>
      match stateMut world state with
      | none => (world, .invalid)
      | some network =>
        match selectQueue queue with
        | none => (world, .invalid)
        | some d =>
          if (network.queues d).count.toNat ≥ queueCapacity then (world, .queueFull)
          else
            match (network.queues d).push (bytesOf bytes length.toNat) with
            | none => (world, .stateError)
            | some q => (world.setQueue state d q, .ok)

/-- The packet at the tail. -/
def PacketQueue.front (q : PacketQueue) : Packet := q.packets (Fin.ofNat 8 q.tail.toNat)

/-- Drop the packet at the tail. -/
def PacketQueue.pop (q : PacketQueue) : PacketQueue :=
  { q with
    packets := update q.packets (Fin.ofNat 8 q.tail.toNat) { q.front with length := 0 }
    tail := UInt8.ofNat ((q.tail.toNat + 1) % queueCapacity)
    count := q.count - 1 }

/-- The bytes of a packet. -/
def Packet.frame (packet : Packet) : List UInt8 := bytesOf packet.bytes packet.length.toNat

/-- What `dequeue` answers and copies out. -/
structure Delivery where
  status : NetStatus
  output : Option (List UInt8)

def dequeue (world : World) (state : UInt64) (queue : UInt32) (output : UInt64) (capacity : UInt64)
    (length : UInt64) : World × Delivery :=
  if output = 0 ∨ length = 0 then (world, ⟨.invalid, none⟩)
  else if validStatePointer state = false ∨
      rangesOverlap state.toNat netStateSize length.toNat wordSize then (world, ⟨.invalid, none⟩)
  else
    match stateMut world state with
    | none => (world, ⟨.invalid, none⟩)
    | some network =>
      match selectQueue queue with
      | none => (world, ⟨.invalid, none⟩)
      | some d =>
        let q := network.queues d
        if q.count = 0 then (world, ⟨.queueEmpty, none⟩)
        else if q.tail.toNat ≥ queueCapacity then (world, ⟨.stateError, none⟩)
        else
          let packetLength := q.front.length.toNat
          if packetLength = 0 ∨ packetLength > maxFrame then (world, ⟨.stateError, none⟩)
          else if capacity.toNat < packetLength then (world, ⟨.bufferTooSmall, none⟩)
          else if rangesOverlap state.toNat netStateSize output.toNat packetLength ∨
              rangesOverlap output.toNat packetLength length.toNat wordSize then
            (world, ⟨.invalid, none⟩)
          else (world.setQueue state d q.pop, ⟨.ok, some q.front.frame⟩)

/-! ## A queue as a list of frames -/

/-- The position of the oldest packet. -/
def PacketQueue.tailIndex (q : PacketQueue) : Fin 8 := Fin.ofNat 8 q.tail.toNat

/-- The frames a queue holds, oldest first. -/
def PacketQueue.frames (q : PacketQueue) : List (List UInt8) :=
  (ringContents q.packets q.tailIndex q.count.toNat).map Packet.frame

/-- A frame that inspection accepts. -/
def Inspected (frame : List UInt8) : Prop := ∃ s, inspectSlice frame = .ok s

structure QueueOk (q : PacketQueue) : Prop where
  tail_lt : q.tail.toNat < 8
  count_le : q.count.toNat ≤ 8
  head_eq : q.head.toNat = (q.tail.toNat + q.count.toNat) % 8
  inspected : ∀ frame ∈ q.frames, Inspected frame

variable {frame : List UInt8}

theorem Inspected.length (h : Inspected frame) : 34 ≤ frame.length ∧ frame.length ≤ 1514 := by
  obtain ⟨s, hs⟩ := h
  have hv := ((inspectSlice_ok frame s).mp hs).1.1.ipv4
  exact ⟨hv.length_ge, hv.length_le⟩

theorem zero_queueOk : QueueOk .zero where
  tail_lt := by decide
  count_le := by decide
  head_eq := by decide
  inspected := by
    intro frame hf
    cases hf

section Ring

variable {q : PacketQueue}

theorem QueueOk.headIndex (h : QueueOk q) :
    Fin.ofNat 8 q.head.toNat = ringIndex q.tailIndex q.count.toNat := by
  apply Fin.val_injective
  rw [ringIndex_val]
  show q.head.toNat % 8 = (q.tail.toNat % 8 + q.count.toNat) % 8
  rw [h.head_eq]
  omega

theorem QueueOk.head_lt (h : QueueOk q) : q.head.toNat < 8 := by
  rw [h.head_eq]
  exact Nat.mod_lt _ (by decide)

theorem QueueOk.stored_frames (h : QueueOk q) (hroom : q.count.toNat < 8)
    (hlen : frame.length < 65536) : (q.stored frame).frames = q.frames ++ [frame] := by
  have hcount : (q.count + 1).toNat = q.count.toNat + 1 := by
    rw [UInt8.toNat_add, show (1 : UInt8).toNat = 1 from rfl]
    omega
  have hlength : (UInt16.ofNat frame.length).toNat = frame.length := ofNat16_toNat hlen
  unfold PacketQueue.frames PacketQueue.stored
  dsimp only [PacketQueue.tailIndex]
  have hhead := h.headIndex
  unfold PacketQueue.tailIndex at hhead
  rw [hcount, hhead, ringContents_push _ _ hroom, List.map_append, List.map_singleton]
  congr 2
  unfold Packet.frame
  rw [hlength]
  calc bytesOf _ frame.length = bytesOf (fun i => frame.getD i 0) frame.length := by
        apply bytesOf_congr
        intro i hi
        exact if_pos hi
    _ = frame := bytesOf_getD frame

theorem QueueOk.push (h : QueueOk q) (hroom : q.count.toNat < 8) (hf : Inspected frame) :
    q.push frame = some (q.stored frame) ∧ QueueOk (q.stored frame) ∧
      (q.stored frame).frames = q.frames ++ [frame] := by
  obtain ⟨_, hle⟩ := hf.length
  have hhead := h.head_lt
  have hframes := h.stored_frames hroom (show frame.length < 65536 by omega)
  have hcount : (q.count + 1).toNat = q.count.toNat + 1 := by
    rw [UInt8.toNat_add, show (1 : UInt8).toNat = 1 from rfl]
    omega
  refine ⟨?_, ⟨h.tail_lt, ?_, ?_, ?_⟩, hframes⟩
  · unfold PacketQueue.push queueCapacity maxFrame
    rw [if_neg (by omega), if_neg (by omega)]
  · show (q.count + 1).toNat ≤ 8
    omega
  · show (UInt8.ofNat ((q.head.toNat + 1) % 8)).toNat = (q.tail.toNat + (q.count + 1).toNat) % 8
    rw [UInt8.toNat_ofNat', h.head_eq]
    omega
  · intro g hg
    rw [hframes, List.mem_append, List.mem_singleton] at hg
    rcases hg with hg | rfl
    · exact h.inspected g hg
    · exact hf

/-- Dropping the packet at the tail drops the oldest frame. -/
theorem QueueOk.pop (h : QueueOk q) (hne : q.count ≠ 0) :
    q.frames = q.front.frame :: q.pop.frames ∧ QueueOk q.pop := by
  have hle := h.count_le
  have htail := h.tail_lt
  obtain ⟨n, hn⟩ : ∃ n, q.count.toNat = n + 1 := by
    refine ⟨q.count.toNat - 1, ?_⟩
    have : q.count.toNat ≠ 0 := fun h0 => hne (UInt8.toNat_inj.mp h0)
    omega
  have hcount : (q.count - 1).toNat = n := by
    rw [UInt8.toNat_sub, show (1 : UInt8).toNat = 1 from rfl]
    omega
  have htail' : (UInt8.ofNat ((q.tail.toNat + 1) % 8)).toNat = (q.tail.toNat + 1) % 8 := by
    rw [UInt8.toNat_ofNat']
    omega
  have hindex : q.pop.tailIndex = q.tailIndex + 1 := by
    apply Fin.val_injective
    rw [Fin.val_add]
    show (UInt8.ofNat ((q.tail.toNat + 1) % 8)).toNat % 8 = (q.tail.toNat % 8 + 1) % 8
    rw [htail']
    omega
  -- the cell that is cleared is none of those that stay
  have hrest : ringContents q.pop.packets (q.tailIndex + 1) n =
      ringContents q.packets (q.tailIndex + 1) n := by
    unfold ringContents
    apply List.map_congr_left
    intro i hi
    have hi := List.mem_range.mp hi
    have hcell : ringIndex (q.tailIndex + 1) i ≠ q.tailIndex := by
      rw [← ringIndex_succ]
      have := ringIndex_ne q.tailIndex (show 0 < i + 1 by omega) (show i + 1 < 8 by omega)
      rw [ringIndex_zero] at this
      exact this.symm
    exact update_of_ne hcell ..
  have hframes : q.frames = q.front.frame :: q.pop.frames := by
    have hpop : q.pop.frames = (ringContents q.packets (q.tailIndex + 1) n).map Packet.frame := by
      show (ringContents q.pop.packets q.pop.tailIndex (q.count - 1).toNat).map Packet.frame = _
      rw [hindex, hcount, hrest]
    rw [hpop]
    unfold PacketQueue.frames
    rw [hn, ringContents_pop]
    rfl
  refine ⟨hframes, ⟨?_, ?_, ?_, ?_⟩⟩
  · show (UInt8.ofNat ((q.tail.toNat + 1) % 8)).toNat < 8
    rw [htail']
    omega
  · show (q.count - 1).toNat ≤ 8
    omega
  · show q.head.toNat = ((UInt8.ofNat ((q.tail.toNat + 1) % 8)).toNat + (q.count - 1).toNat) % 8
    rw [h.head_eq]
    omega
  · intro g hg
    apply h.inspected g
    rw [hframes]
    exact List.mem_cons_of_mem _ hg

end Ring

/-! ## The core at one address -/

/-- A core that is in order. -/
structure CoreOk (network : NetState) : Prop where
  magic : network.magic = stateMagic
  queue : ∀ d, QueueOk (network.queues d)

theorem setQueue_same (world : World) (state : UInt64) (d : Direction) (q : PacketQueue) :
    (world.setQueue state d q) state =
      { world state with queues := update (world state).queues d q } :=
  update_self ..

theorem setQueue_other (world : World) {state : UInt64} (d : Direction) (q : PacketQueue)
    (h : base ≠ state) : (world.setQueue state d q) base = world base := update_of_ne h ..

theorem CoreOk.setQueue {state : UInt64} (h : CoreOk (world state)) (d : Direction)
    {q : PacketQueue} (hq : QueueOk q) : CoreOk (world.setQueue state d q state) := by
  rw [setQueue_same]
  refine ⟨h.magic, ?_⟩
  intro e
  by_cases he : e = d
  · rw [he]
    simpa using hq
  · simpa [he] using h.queue e

theorem CoreOk.stateMut {state : UInt64} (h : CoreOk (world state))
    (hp : validStatePointer state = true) : stateMut world state = some (world state) := by
  simp [Net.stateMut, hp, h.magic]

/-- What an enqueue on a core that is in order does. -/
theorem enqueue_cases {state : UInt64} (h : CoreOk (world state)) (queue : UInt32) (frame : UInt64)
    (bytes : Nat → UInt8) (length : UInt64) :
    ((enqueue world state queue frame bytes length).1 = world ∧
      (enqueue world state queue frame bytes length).2 ≠ .ok ∧
      (enqueue world state queue frame bytes length).2 ≠ .stateError) ∨
    (∃ d, selectQueue queue = some d ∧ ((world state).queues d).count.toNat < 8 ∧
      Inspected (bytesOf bytes length.toNat) ∧
      enqueue world state queue frame bytes length =
        (world.setQueue state d (((world state).queues d).stored (bytesOf bytes length.toNat)),
          .ok)) := by
  unfold enqueue
  by_cases h1 : frame = 0 ∨ length = 0 ∨ length.toNat > maxFrame
  · simp [h1]
  rw [if_neg h1]
  by_cases h2 : validStatePointer state = false ∨
      rangesOverlap state.toNat netStateSize frame.toNat length.toNat
  · simp [h2]
  rw [if_neg h2]
  have hp : validStatePointer state = true := by
    rw [not_or] at h2
    simpa using h2.1
  cases hi : inspectSlice (bytesOf bytes length.toNat) with
  | error status =>
    left
    have hr := inspectSlice_refuses _ status hi
    refine ⟨rfl, ?_, ?_⟩
    · rintro rfl
      exact absurd hr (by decide)
    · rintro rfl
      exact absurd hr (by decide)
  | ok s =>
    rw [h.stateMut hp]
    dsimp only
    cases hd : selectQueue queue with
    | none => simp
    | some d =>
      dsimp only
      by_cases h3 : ((world state).queues d).count.toNat ≥ queueCapacity
      · simp [h3]
      · rw [if_neg h3]
        unfold queueCapacity at h3
        right
        have hf : Inspected (bytesOf bytes length.toNat) := ⟨s, hi⟩
        refine ⟨d, rfl, by omega, hf, ?_⟩
        rw [((h.queue d).push (by omega) hf).1]

theorem frames_length (q : PacketQueue) : q.frames.length = q.count.toNat := by
  simp [PacketQueue.frames]

theorem front_frame_length (q : PacketQueue) : q.front.frame.length = q.front.length.toNat :=
  bytesOf_length _ _

/-- The packet at the tail of a queue that holds something is an inspected frame. -/
theorem QueueOk.front_inspected {q : PacketQueue} (h : QueueOk q) (hne : q.count ≠ 0) :
    Inspected q.front.frame := by
  apply h.inspected
  rw [(h.pop hne).1]
  exact List.mem_cons_self

/-- What a dequeue on a core that is in order does. -/
theorem dequeue_cases {state : UInt64} (h : CoreOk (world state)) (queue : UInt32)
    (output capacity length : UInt64) :
    ((dequeue world state queue output capacity length).1 = world ∧
      (dequeue world state queue output capacity length).2.status ≠ .ok ∧
      (dequeue world state queue output capacity length).2.status ≠ .stateError ∧
      (dequeue world state queue output capacity length).2.output = none) ∨
    (∃ d, selectQueue queue = some d ∧ ((world state).queues d).count ≠ 0 ∧
      dequeue world state queue output capacity length =
        (world.setQueue state d ((world state).queues d).pop,
          ⟨.ok, some ((world state).queues d).front.frame⟩)) := by
  unfold dequeue
  by_cases h1 : output = 0 ∨ length = 0
  · simp [h1]
  rw [if_neg h1]
  by_cases h2 : validStatePointer state = false ∨
      rangesOverlap state.toNat netStateSize length.toNat wordSize
  · simp [h2]
  rw [if_neg h2]
  have hp : validStatePointer state = true := by
    rw [not_or] at h2
    simpa using h2.1
  rw [h.stateMut hp]
  dsimp only
  cases hd : selectQueue queue with
  | none => simp
  | some d =>
    dsimp only
    by_cases h3 : ((world state).queues d).count = 0
    · simp [h3]
    rw [if_neg h3]
    have hq := h.queue d
    have htail : ¬ ((world state).queues d).tail.toNat ≥ queueCapacity := by
      have := hq.tail_lt
      unfold queueCapacity
      omega
    have hlen : ¬ (((world state).queues d).front.length.toNat = 0 ∨
        ((world state).queues d).front.length.toNat > maxFrame) := by
      have := (hq.front_inspected h3).length
      rw [front_frame_length] at this
      unfold maxFrame
      omega
    rw [if_neg htail, if_neg hlen]
    by_cases h4 : capacity.toNat < ((world state).queues d).front.length.toNat
    · simp [h4]
    rw [if_neg h4]
    by_cases h5 : rangesOverlap state.toNat netStateSize output.toNat
          ((world state).queues d).front.length.toNat ∨
        rangesOverlap output.toNat ((world state).queues d).front.length.toNat length.toNat wordSize
    · simp [h5]
    rw [if_neg h5]
    exact Or.inr ⟨d, rfl, h3, rfl⟩

/-! ## Runs -/

inductive NetCall where
  | enqueue (state : UInt64) (queue : UInt32) (frame : UInt64) (bytes : Nat → UInt8)
      (length : UInt64)
  | dequeue (state : UInt64) (queue : UInt32) (output capacity length : UInt64)

/-- The state a call names. -/
def NetCall.state : NetCall → UInt64
  | .enqueue state _ _ _ _ => state
  | .dequeue state _ _ _ _ => state

/-- The queue a call names. -/
def NetCall.queue : NetCall → UInt32
  | .enqueue _ queue _ _ _ => queue
  | .dequeue _ queue _ _ _ => queue

def callStatus (world : World) : NetCall → NetStatus
  | .enqueue state queue frame bytes length => (enqueue world state queue frame bytes length).2
  | .dequeue state queue output capacity length =>
    (dequeue world state queue output capacity length).2.status

/-- The cores, and what has gone into and come out of the core at one address. -/
structure Track where
  world : World
  accepted : Direction → List (List UInt8)
  delivered : Direction → List (List UInt8)

variable {t : Track}

/-- Append to the log of the queue that is named. -/
def logFrame (log : Direction → List (List UInt8)) (queue : UInt32) (frame : Option (List UInt8)) :
    Direction → List (List UInt8) :=
  match selectQueue queue, frame with
  | some d, some frame => update log d (log d ++ [frame])
  | _, _ => log

/-- One call, with the log kept for the core at `base`. -/
def netStep (base : UInt64) (t : Track) : NetCall → Track
  | .enqueue state queue frame bytes length =>
    let (world, status) := enqueue t.world state queue frame bytes length
    { t with
      world := world
      accepted := logFrame t.accepted queue
        (if state = base ∧ status = .ok then some (bytesOf bytes length.toNat) else none) }
  | .dequeue state queue output capacity length =>
    let (world, delivery) := dequeue t.world state queue output capacity length
    { t with
      world := world
      delivered := logFrame t.delivered queue (if state = base then delivery.output else none) }

def netRun (base : UInt64) (t : Track) (calls : List NetCall) : Track :=
  calls.foldl (netStep base) t

/-! ## The queues are FIFOs -/

/-- What was accepted is what was delivered and what is held. -/
structure Tracks (base : UInt64) (t : Track) : Prop where
  core : CoreOk (t.world base)
  split : ∀ d, t.accepted d = t.delivered d ++ ((t.world base).queues d).frames
  inspected : ∀ d, ∀ frame ∈ t.accepted d, Inspected frame

theorem logFrame_none (log : Direction → List (List UInt8)) (queue : UInt32) :
    logFrame log queue none = log := by
  unfold logFrame
  cases selectQueue queue <;> rfl

variable {queue : UInt32}

theorem logFrame_some {log : Direction → List (List UInt8)} (h : selectQueue queue = some d)
    (frame : List UInt8) : logFrame log queue (some frame) = update log d (log d ++ [frame]) := by
  unfold logFrame
  rw [h]

/-- A call on another core's state leaves this one alone. -/
theorem enqueue_elsewhere (world : World) {state : UInt64} (hne : base ≠ state) (queue : UInt32)
    (frame : UInt64) (bytes : Nat → UInt8) (length : UInt64) :
    (enqueue world state queue frame bytes length).1 base = world base := by
  unfold enqueue
  split
  · rfl
  · split
    · rfl
    · split
      · rfl
      · split
        · rfl
        · split
          · rfl
          · split
            · rfl
            · split
              · rfl
              · exact setQueue_other _ _ _ hne

theorem dequeue_elsewhere (world : World) {state : UInt64} (hne : base ≠ state) (queue : UInt32)
    (output capacity length : UInt64) :
    (dequeue world state queue output capacity length).1 base = world base := by
  unfold dequeue
  split
  · rfl
  · split
    · rfl
    · split
      · rfl
      · split
        · rfl
        · dsimp only
          split
          · rfl
          · split
            · rfl
            · split
              · rfl
              · split
                · rfl
                · split
                  · rfl
                  · exact setQueue_other _ _ _ hne

/-- What a call does to the core at `base` and to its logs. -/
inductive Does (base : UInt64) (t : Track) (call : NetCall) : Prop
  | nothing (hworld : (netStep base t call).world base = t.world base)
      (haccepted : (netStep base t call).accepted = t.accepted)
      (hdelivered : (netStep base t call).delivered = t.delivered)
      (hstatus : call.state = base → callStatus t.world call ≠ .stateError)
  | push (d : Direction) (frame : List UInt8) (hd : selectQueue call.queue = some d)
      (hroom : ((t.world base).queues d).count.toNat < 8) (hf : Inspected frame)
      (hstep : netStep base t call = { t with
        world := t.world.setQueue base d (((t.world base).queues d).stored frame)
        accepted := update t.accepted d (t.accepted d ++ [frame]) })
      (hstatus : callStatus t.world call = .ok)
  | pop (d : Direction) (hd : selectQueue call.queue = some d)
      (hne : ((t.world base).queues d).count ≠ 0)
      (hstep : netStep base t call = { t with
        world := t.world.setQueue base d ((t.world base).queues d).pop
        delivered := update t.delivered d
          (t.delivered d ++ [((t.world base).queues d).front.frame]) })
      (hstatus : callStatus t.world call = .ok)

theorem CoreOk.does (h : CoreOk (t.world base)) (call : NetCall) : Does base t call := by
  cases call with
  | enqueue state queue frame bytes length =>
    by_cases hs : state = base
    · subst hs
      rcases enqueue_cases h queue frame bytes length with
        ⟨hw, hok, herr⟩ | ⟨d, hd, hroom, hf, heq⟩
      · have hstep : netStep state t (.enqueue state queue frame bytes length) = t := by
          simp [netStep, hw, hok, logFrame_none]
        exact .nothing (by rw [hstep]) (by rw [hstep]) (by rw [hstep]) fun _ => herr
      · exact .push d _ hd hroom hf (by simp [netStep, heq, logFrame_some hd])
          (congrArg Prod.snd heq)
    · exact .nothing (enqueue_elsewhere t.world (Ne.symm hs) ..)
        (by simp [netStep, hs, logFrame_none]) rfl fun hc => absurd hc hs
  | dequeue state queue output capacity length =>
    by_cases hs : state = base
    · subst hs
      rcases dequeue_cases h queue output capacity length with
        ⟨hw, _, herr, hout⟩ | ⟨d, hd, hne, heq⟩
      · have hstep : netStep state t (.dequeue state queue output capacity length) = t := by
          simp [netStep, hw, hout, logFrame_none]
        exact .nothing (by rw [hstep]) (by rw [hstep]) (by rw [hstep]) fun _ => herr
      · exact .pop d hd hne (by simp [netStep, heq, logFrame_some hd])
          (congrArg (fun r => r.2.status) heq)
    · exact .nothing (dequeue_elsewhere t.world (Ne.symm hs) ..) rfl
        (by simp [netStep, hs, logFrame_none]) fun hc => absurd hc hs

theorem Tracks.step (h : Tracks base t) (call : NetCall) : Tracks base (netStep base t call) := by
  cases h.core.does call with
  | nothing hworld haccepted hdelivered _ =>
    refine ⟨?_, ?_, ?_⟩
    · rw [hworld]
      exact h.core
    · rw [hworld, haccepted, hdelivered]
      exact h.split
    · rw [haccepted]
      exact h.inspected
  | push d frame _ hroom hf hstep _ =>
    obtain ⟨_, hq, hframes⟩ := (h.core.queue d).push hroom hf
    rw [hstep]
    refine ⟨h.core.setQueue d hq, ?_, ?_⟩
    · intro e
      dsimp only
      rw [setQueue_same]
      by_cases he : e = d
      · subst he
        simp only [update_self]
        rw [hframes, h.split e, List.append_assoc]
      · simp only [update_of_ne he]
        exact h.split e
    · intro e g hg
      by_cases he : e = d
      · subst he
        simp only [update_self, List.mem_append, List.mem_singleton] at hg
        rcases hg with hg | rfl
        · exact h.inspected e g hg
        · exact hf
      · simp only [update_of_ne he] at hg
        exact h.inspected e g hg
  | pop d _ hne hstep _ =>
    obtain ⟨hframes, hq⟩ := (h.core.queue d).pop hne
    rw [hstep]
    refine ⟨h.core.setQueue d hq, ?_, h.inspected⟩
    intro e
    dsimp only
    rw [setQueue_same]
    by_cases he : e = d
    · subst he
      simp only [update_self]
      rw [h.split e, hframes, List.append_assoc, List.singleton_append]
    · simp only [update_of_ne he]
      exact h.split e

theorem Tracks.run (h : Tracks base t) (calls : List NetCall) :
    Tracks base (netRun base t calls) := by
  induction calls generalizing t with
  | nil => exact h
  | cons call rest ih => exact ih (h.step call)

/-! ## What the core guarantees -/

/-- What holds of the core at `base` between any two calls. -/
structure NetSound (base : UInt64) (t : Track) : Prop where
  fifo : ∀ d, t.accepted d = t.delivered d ++ ((t.world base).queues d).frames
  in_order : ∀ d, t.delivered d <+: t.accepted d
  bounded : ∀ d, ((t.world base).queues d).frames.length ≤ 8
  handed_out : ∀ d, ∀ frame ∈ t.delivered d, ∃ s, inspectSlice frame = .ok s
  positions : ∀ d, ((t.world base).queues d).head.toNat =
    (((t.world base).queues d).tail.toNat + ((t.world base).queues d).count.toNat) % 8
  independent : ∀ call d, selectQueue call.queue ≠ some d →
    ((netStep base t call).world base).queues d = (t.world base).queues d
  no_state_error : ∀ call : NetCall, call.state = base → callStatus t.world call ≠ .stateError
  failed : ∀ call, callStatus t.world call ≠ .ok → (netStep base t call).world base = t.world base
  accepts : ∀ (d : Direction) (queue : UInt32) (frame : UInt64) (bytes : Nat → UInt8)
    (length : UInt64), selectQueue queue = some d → frame ≠ 0 →
    rangesOverlap base.toNat netStateSize frame.toNat length.toNat = false →
    (∃ s, inspectSlice (bytesOf bytes length.toNat) = .ok s) →
    (enqueue t.world base queue frame bytes length).2 =
      if ((t.world base).queues d).frames.length = 8 then .queueFull else .ok
  empty : ∀ (d : Direction) (queue : UInt32) (output capacity length : UInt64),
    selectQueue queue = some d → output ≠ 0 → length ≠ 0 →
    rangesOverlap base.toNat netStateSize length.toNat wordSize = false →
    ((t.world base).queues d).frames = [] →
    (dequeue t.world base queue output capacity length).2.status = .queueEmpty
  hands_out : ∀ (d : Direction) (queue : UInt32) (output capacity length : UInt64)
    (frame : List UInt8) (rest : List (List UInt8)),
    selectQueue queue = some d → output ≠ 0 → length ≠ 0 →
    rangesOverlap base.toNat netStateSize length.toNat wordSize = false →
    rangesOverlap base.toNat netStateSize output.toNat frame.length = false →
    rangesOverlap output.toNat frame.length length.toNat wordSize = false →
    ((t.world base).queues d).frames = frame :: rest → frame.length ≤ capacity.toNat →
    (dequeue t.world base queue output capacity length).2 = ⟨.ok, some frame⟩

section

variable (h : Tracks base t)

include h

theorem Tracks.independent (call : NetCall) (d : Direction) (hd : selectQueue call.queue ≠ some d) :
    ((netStep base t call).world base).queues d = (t.world base).queues d := by
  have hset : ∀ {e : Direction} {q : PacketQueue}, selectQueue call.queue = some e →
      ((t.world.setQueue base e q) base).queues d = (t.world base).queues d := by
    intro e q he
    have hne : d ≠ e := by
      rintro rfl
      exact hd he
    rw [setQueue_same]
    exact update_of_ne hne ..
  cases h.core.does call with
  | nothing hworld _ _ _ => rw [hworld]
  | push e frame he _ _ hstep _ | pop e he _ hstep _ =>
    rw [hstep]
    exact hset he

theorem Tracks.no_state_error (call : NetCall) (hs : call.state = base) :
    callStatus t.world call ≠ .stateError := by
  cases h.core.does call with
  | nothing _ _ _ hstatus => exact hstatus hs
  | push _ _ _ _ _ _ hstatus | pop _ _ _ _ hstatus =>
    rw [hstatus]
    decide

theorem Tracks.failed (call : NetCall) (hfail : callStatus t.world call ≠ .ok) :
    (netStep base t call).world base = t.world base := by
  cases h.core.does call with
  | nothing hworld _ _ _ => exact hworld
  | push _ _ _ _ _ _ hstatus | pop _ _ _ _ hstatus => exact absurd hstatus hfail

section

variable (hp : validStatePointer base = true)

include hp

/-- A valid frame is accepted while there is room. -/
theorem Tracks.accepts {frame : UInt64} {bytes : Nat → UInt8} {length : UInt64}
    (hd : selectQueue queue = some d) (hframe : frame ≠ 0)
    (hover : rangesOverlap base.toNat netStateSize frame.toNat length.toNat = false)
    (hf : Inspected (bytesOf bytes length.toNat)) :
    (Net.enqueue t.world base queue frame bytes length).2 =
      if ((t.world base).queues d).frames.length = 8 then .queueFull else .ok := by
  obtain ⟨s, hs⟩ := hf
  have hlen := Inspected.length ⟨s, hs⟩
  rw [bytesOf_length] at hlen
  have hq := h.core.queue d
  have hle := hq.count_le
  have h1 : ¬ (frame = 0 ∨ length = 0 ∨ length.toNat > maxFrame) := by
    rintro (h0 | h0 | h0)
    · exact hframe h0
    · rw [h0, UInt64.toNat_zero] at hlen
      omega
    · unfold maxFrame at h0
      omega
  have h2 : ¬ (validStatePointer base = false ∨
      rangesOverlap base.toNat netStateSize frame.toNat length.toNat = true) := by
    rw [hp, hover]
    simp
  unfold Net.enqueue
  rw [if_neg h1, if_neg h2, hs]
  dsimp only
  rw [h.core.stateMut hp, hd, frames_length]
  dsimp only
  unfold queueCapacity
  by_cases hfull : ((t.world base).queues d).count.toNat = 8
  · rw [if_pos (by omega), if_pos hfull]
  · rw [if_neg (by omega), if_neg hfull, (hq.push (by omega) ⟨s, hs⟩).1]

theorem Tracks.empty {output capacity length : UInt64} (hd : selectQueue queue = some d)
    (hout : output ≠ 0) (hlength : length ≠ 0)
    (hover : rangesOverlap base.toNat netStateSize length.toNat wordSize = false)
    (hempty : ((t.world base).queues d).frames = []) :
    (Net.dequeue t.world base queue output capacity length).2.status = .queueEmpty := by
  have hcount : ((t.world base).queues d).count = 0 := by
    rw [← UInt8.toNat_inj, ← frames_length, hempty]
    rfl
  simp [Net.dequeue, hout, hlength, hp, hover, h.core.stateMut hp, hd, hcount]

/-- The oldest frame is handed out to a buffer that is large enough. -/
theorem Tracks.hands_out {output capacity length : UInt64} {rest : List (List UInt8)}
    (hd : selectQueue queue = some d) (hout : output ≠ 0) (hlength : length ≠ 0)
    (hover : rangesOverlap base.toNat netStateSize length.toNat wordSize = false)
    (hover' : rangesOverlap base.toNat netStateSize output.toNat frame.length = false)
    (hover'' : rangesOverlap output.toNat frame.length length.toNat wordSize = false)
    (hframes : ((t.world base).queues d).frames = frame :: rest)
    (hcap : frame.length ≤ capacity.toNat) :
    (Net.dequeue t.world base queue output capacity length).2 = ⟨.ok, some frame⟩ := by
  have hq := h.core.queue d
  have hcount : ((t.world base).queues d).count ≠ 0 := by
    intro h0
    have := frames_length ((t.world base).queues d)
    rw [hframes, h0] at this
    simp at this
  obtain ⟨hfront, _⟩ := hq.pop hcount
  rw [hframes] at hfront
  obtain ⟨rfl, _⟩ := List.cons.inj hfront
  have htail : ¬ ((t.world base).queues d).tail.toNat ≥ queueCapacity := by
    have := hq.tail_lt
    unfold queueCapacity
    omega
  have hlen := (hq.front_inspected hcount).length
  rw [front_frame_length] at hlen hcap hover' hover''
  have hlen' : ¬ (((t.world base).queues d).front.length.toNat = 0 ∨
      ((t.world base).queues d).front.length.toNat > maxFrame) := by
    unfold maxFrame
    omega
  unfold Net.dequeue
  rw [if_neg (not_or.mpr ⟨hout, hlength⟩), if_neg (by rw [hp, hover]; simp), h.core.stateMut hp, hd]
  dsimp only
  rw [if_neg hcount, if_neg htail, if_neg hlen', if_neg (by omega),
    if_neg (by rw [hover', hover'']; simp)]

theorem Tracks.sound : NetSound base t where
  fifo := h.split
  in_order := fun d => ⟨_, (h.split d).symm⟩
  bounded := fun d => by
    rw [frames_length]
    exact (h.core.queue d).count_le
  handed_out := fun d frame hf => h.inspected d frame (by
    rw [h.split d]
    exact List.mem_append_left _ hf)
  positions := fun d => (h.core.queue d).head_eq
  independent := h.independent
  no_state_error := h.no_state_error
  failed := h.failed
  accepts := fun _ _ _ _ _ hd hframe hover hf => h.accepts hp hd hframe hover hf
  empty := fun _ _ _ _ _ hd hout hlength hover he => h.empty hp hd hout hlength hover he
  hands_out := fun _ _ _ _ _ _ _ hd hout hlength h1 h2 h3 hf hcap =>
    h.hands_out hp hd hout hlength h1 h2 h3 hf hcap

end

end

/-- From `initialize`, for every run of calls, each queue is a FIFO of at most eight inspected
    frames: what comes out is, byte for byte and in order, what went in. -/
theorem queues_refine_fifos (world : World) (base capacity : UInt64)
    (hinit : (netInitialize world base capacity).2 = .ok) (calls : List NetCall) :
    NetSound base (netRun base
      ⟨(netInitialize world base capacity).1, fun _ => [], fun _ => []⟩ calls) := by
  unfold netInitialize at hinit ⊢
  split at hinit
  · cases hinit
  · next hc =>
    rw [not_or] at hc
    have hp : validStatePointer base = true := by simpa using hc.1
    rw [if_neg (not_or.mpr hc)]
    apply Tracks.sound _ hp
    apply Tracks.run
    refine ⟨⟨?_, ?_⟩, ?_, ?_⟩
    · simp
    · intro d
      simpa using zero_queueOk
    · intro d
      simp [PacketQueue.frames, PacketQueue.zero, ringContents]
    · intro d frame hf
      cases hf

/-- The frame of the boot self-test: four bytes of UDP payload. -/
def udpFixture : List UInt8 :=
  [82, 84, 0, 65, 82, 71, 82, 84, 0, 83, 69, 67, 8, 0,
   69, 0, 0, 32, 18, 52, 64, 0, 64, 17, 20, 151, 10, 0, 0, 1, 10, 0, 0, 2,
   160, 40, 1, 187, 0, 12, 167, 121, 78, 69, 84, 49]

/-- Fill in one frame, read it back into a buffer that is too small, then into one that is not. -/
def oneFrameCalls : List NetCall :=
  [.enqueue 0x10000 0 0x20000 (fun i => udpFixture.getD i 0) 46,
   .dequeue 0x10000 0 0x30000 12 0x40000,
   .dequeue 0x10000 0 0x30000 1514 0x40000]

theorem queues_refine_fifos_oneFrame :
    (netInitialize (fun _ => ⟨0, fun _ => .zero⟩) 0x10000 32768).2 = .ok ∧
    NetSound 0x10000 (netRun 0x10000
      ⟨(netInitialize (fun _ => ⟨0, fun _ => .zero⟩) 0x10000 32768).1, fun _ => [], fun _ => []⟩
      oneFrameCalls) :=
  have hinit : (netInitialize (fun _ => ⟨0, fun _ => .zero⟩) 0x10000 32768).2 = .ok := by decide
  ⟨hinit, queues_refine_fifos _ 0x10000 32768 hinit oneFrameCalls⟩

end ArgusOs.Net
