/-
  Delivery of keys: what `ps2_getc_nonblocking` returns, when the drain loop may run between any
  two accesses of the main loop.

  The abstract keyboard is a queue of at most 63 characters that counts what it has no room
  for. The driver behaves like it when the drain loop runs on one side only: in the handler, or
  in the main loop. With one device on interrupts and the other polled it runs on both, and a
  handler that interrupts `queue_key` of the main loop has its character overwritten without a
  count.
-/
import ArgusOs.Input.Ps2

namespace ArgusOs.Input

open Lib

variable {s : Ps2} {c : Controller}

/-! ## The abstract keyboard -/

structure Keys where
  waiting : List UInt8 := []
  lost : Nat := 0
  deriving DecidableEq

variable {k : Keys}

namespace Keys

/-- A character comes in; with 63 waiting it is lost, and counted. -/
def accept (k : Keys) (character : UInt8) : Keys :=
  if k.waiting.length < 63 then { k with waiting := k.waiting ++ [character] }
  else { k with lost := k.lost + 1 }

def acceptAll (k : Keys) (characters : List UInt8) : Keys := characters.foldl accept k

/-- The oldest character is taken, if one is waiting. -/
def take (k : Keys) : Option UInt8 × Keys :=
  (k.waiting.head?, { k with waiting := k.waiting.tail })

theorem acceptAll_append (k : Keys) (first second : List UInt8) :
    k.acceptAll (first ++ second) = (k.acceptAll first).acceptAll second :=
  List.foldl_append

theorem accept_waiting (k : Keys) (character : UInt8) :
    ∃ more, (k.accept character).waiting = k.waiting ++ more := by
  unfold accept
  split
  · exact ⟨[character], rfl⟩
  · exact ⟨[], (List.append_nil _).symm⟩

/-- Whatever comes in, what was waiting stays in front. -/
theorem acceptAll_waiting (k : Keys) (characters : List UInt8) :
    ∃ more, (k.acceptAll characters).waiting = k.waiting ++ more := by
  induction characters generalizing k with
  | nil => exact ⟨[], (List.append_nil _).symm⟩
  | cons character rest ih =>
    obtain ⟨first, hfirst⟩ := accept_waiting k character
    obtain ⟨second, hsecond⟩ := ih (k.accept character)
    refine ⟨first ++ second, ?_⟩
    rw [← List.append_assoc, ← hfirst]
    exact hsecond

end Keys

/-- The characters decoded from keyboard bytes, in order, and the modifiers after them. -/
def decodeBytes (m : Modifiers) : List UInt8 → Modifiers × List UInt8
  | [] => (m, [])
  | byte :: rest =>
    let decoded := (decodeScanCode byte).run m
    let later := decodeBytes decoded.1 rest
    (later.1, decoded.2.toList ++ later.2)

theorem decodeBytes_append (m : Modifiers) (first second : List UInt8) :
    decodeBytes m (first ++ second) =
      ((decodeBytes (decodeBytes m first).1 second).1,
        (decodeBytes m first).2 ++ (decodeBytes (decodeBytes m first).1 second).2) := by
  induction first generalizing m with
  | nil => rfl
  | cons byte rest ih =>
    rw [List.cons_append, decodeBytes, ih]
    simp only [decodeBytes, List.append_assoc]

/-- The characters of all the keyboard bytes read so far. -/
def Ps2.characters (s : Ps2) : List UInt8 := (decodeBytes {} s.controller.received).2

/-! ## Runs of the main loop -/

/-- A call of the main loop, with how often the handler runs before each of its actions. -/
inductive Turn
  | getc (schedule : List Nat)
  | mouseEvent (schedule : List Nat)

/-- The handler runs only if an interrupt has been routed. -/
def Ps2.interruptible (s : Ps2) (schedule : List Nat) : List Nat :=
  if s.keyboardIrqOnline || s.mouseIrqOnline then schedule else []

def Ps2.getc (s : Ps2) (schedule : List Nat) : Ps2 × Option UInt8 :=
  ps2GetcNonblocking.runWith ps2Interrupt (s.interruptible schedule) s

def Ps2.mouseEvent (s : Ps2) (schedule : List Nat) : Ps2 × Option MouseEvent :=
  ps2MouseGetEvent.runWith ps2Interrupt (s.interruptible schedule) s

/-- The characters that came in between two states. -/
def newCharacters (s s' : Ps2) : List UInt8 := s'.characters.drop s.characters.length

/-- The run follows the abstract keyboard: each call takes in the characters that were decoded
    during it, `getc` returns the one that has waited longest, and the driver's counter is the
    number of those lost. -/
def Follows : Keys → Ps2 → List Turn → Prop
  | k, s, [] => s.keys.dropped = UInt64.ofNat k.lost
  | k, s, .getc schedule :: rest =>
    let k' := k.acceptAll (newCharacters s (s.getc schedule).1)
    (s.getc schedule).2 = k'.take.1 ∧ Follows k'.take.2 (s.getc schedule).1 rest
  | k, s, .mouseEvent schedule :: rest =>
    Follows (k.acceptAll (newCharacters s (s.mouseEvent schedule).1)) (s.mouseEvent schedule).1 rest

/-! ## The start -/

/-- After `ps2_keyboard_init`; the bytes that come in later are not known. -/
def afterKeyboardInit (keyboardIrq : Bool) (arrivals : List (List PortByte)) : Ps2 where
  controller := { arrivals, pending := [], latch := 0, received := [] }
  keyboardAvailable := true
  keyboardIrqOnline := keyboardIrq
  mouseAvailable := false
  mouseIrqOnline := false
  modifiers := {}
  keys := { cells := fun _ => 0, head := 0, tail := 0, dropped := 0 }
  packet := { bytes := fun _ => 0, index := 0, packets := 0 }
  mouseEvents :=
    { cells := fun _ => { dx := 0, dy := 0, buttons := 0 }, head := 0, tail := 0, dropped := 0 }

/-- A keyboard byte that `ps2_mouse_init` reads while it waits for the mouse. -/
def earlyByte (s : Ps2) (byte : UInt8) : Ps2 :=
  ((routeDataByte 0x01 byte).run
    { s with controller := { s.controller with received := s.controller.received ++ [byte] } }).1

/-- After `ps2_mouse_init`: both devices are available. -/
def booted (keyboardIrq mouseIrq : Bool) (early : List UInt8)
    (arrivals : List (List PortByte)) : Ps2 :=
  { early.foldl earlyByte (afterKeyboardInit keyboardIrq arrivals) with
    mouseAvailable := true, mouseIrqOnline := mouseIrq }

/-- The abstract keyboard at that point has taken in the early bytes. -/
def startKeys (s : Ps2) : Keys := ({} : Keys).acceptAll s.characters

/-! ## The queue -/

namespace Spsc

variable {cap : Nat} [NeZero cap] {α : Type}

/-- The queue holds a list of values, oldest first. -/
structure Holds (q : Spsc cap α) (values : List α) : Prop where
  few : values.length < cap
  head_eq : q.head = ringIndex q.tail values.length
  cells_eq : ringContents q.cells q.tail values.length = values

variable {q : Spsc cap α} {values : List α}

theorem Holds.full_iff (h : q.Holds values) : q.head + 1 = q.tail ↔ values.length + 1 = cap := by
  rw [h.head_eq, ringIndex_push]
  constructor
  · intro heq
    have hfew := h.few
    by_contra hne
    apply ringIndex_ne q.tail (Nat.succ_pos values.length) (show values.length + 1 < cap by omega)
    rw [ringIndex_zero, heq]
  · intro hlen
    rw [hlen]
    apply Fin.val_injective
    rw [ringIndex_val, Nat.add_mod_right, Nat.mod_eq_of_lt q.tail.isLt]

theorem Holds.empty_iff (h : q.Holds values) : q.tail = q.head ↔ values = [] := by
  rw [h.head_eq]
  constructor
  · intro heq
    by_contra hne
    apply ringIndex_ne q.tail (List.length_pos_iff.mpr hne) h.few
    rw [ringIndex_zero, ← heq]
  · rintro rfl
    exact (ringIndex_zero q.tail).symm

theorem enqueue_run (q : Spsc cap α) (value : α) :
    (enqueue value).run q =
      (if q.head + 1 = q.tail then { q with dropped := q.dropped + 1 }
        else { q with cells := Function.update q.cells q.head value, head := q.head + 1 }, ()) := by
  show Code.run (if q.head + 1 = q.tail then _ else _) q = _
  by_cases hfull : q.head + 1 = q.tail
  · rw [if_pos hfull, if_pos hfull]
    rfl
  · rw [if_neg hfull, if_neg hfull]
    rfl

/-- A value is stored, or the queue is full and the value is counted. -/
theorem Holds.enqueue (h : q.Holds values) (value : α) :
    ((Spsc.enqueue value).run q).1.tail = q.tail ∧
    if values.length + 1 < cap then
      ((Spsc.enqueue value).run q).1.Holds (values ++ [value]) ∧
        ((Spsc.enqueue value).run q).1.dropped = q.dropped
    else ((Spsc.enqueue value).run q).1.Holds values ∧
      ((Spsc.enqueue value).run q).1.dropped = q.dropped + 1 := by
  have hfew := h.few
  rw [enqueue_run]
  dsimp only
  by_cases hroom : values.length + 1 < cap
  · rw [if_pos hroom, if_neg (fun hfull => by have := h.full_iff.mp hfull; omega)]
    refine ⟨rfl, ⟨?_, ?_, ?_⟩, rfl⟩
    · rw [List.length_append]
      exact hroom
    · rw [List.length_append]
      show q.head + 1 = _
      rw [h.head_eq, ringIndex_push]
      rfl
    · rw [List.length_append]
      show ringContents (Function.update q.cells q.head value) q.tail (values.length + 1) = _
      rw [h.head_eq, ringContents_push q.cells q.tail hfew value, h.cells_eq]
  · rw [if_neg hroom, if_pos (h.full_iff.mpr (by omega))]
    exact ⟨rfl, ⟨h.few, h.head_eq, h.cells_eq⟩, rfl⟩

theorem Holds.front {value : α} {rest : List α} (h : q.Holds (value :: rest)) :
    q.cells q.tail = value := by
  have hcells := h.cells_eq
  rw [List.length_cons, ringContents_pop] at hcells
  exact (List.cons.inj hcells).1

theorem Holds.advance {value : α} {rest : List α} (h : q.Holds (value :: rest)) :
    Spsc.Holds { q with tail := q.tail + 1 } rest := by
  have hcells := h.cells_eq
  have hfew := h.few
  rw [List.length_cons] at hfew
  rw [List.length_cons, ringContents_pop] at hcells
  refine ⟨by omega, ?_, (List.cons.inj hcells).2⟩
  show q.head = ringIndex (q.tail + 1) rest.length
  rw [h.head_eq, List.length_cons, ringIndex_succ]

end Spsc

/-! ## The drain loop -/

/-- The driver's state stands for the abstract keyboard `k`. -/
structure Tracks (k : Keys) (s : Ps2) : Prop where
  holds : s.keys.Holds k.waiting
  dropped : s.keys.dropped = UInt64.ofNat k.lost
  modifiers : s.modifiers = (decodeBytes {} s.controller.received).1
  keyboard : s.keyboardAvailable = true

/-- What only the main loop or the initialisation changes. -/
structure SameSide (s s' : Ps2) : Prop where
  tail : s'.keys.tail = s.keys.tail
  keyboardIrq : s'.keyboardIrqOnline = s.keyboardIrqOnline
  mouseIrq : s'.mouseIrqOnline = s.mouseIrqOnline
  mouse : s'.mouseAvailable = s.mouseAvailable

/-- From `s` to `s'` characters came in, and nothing else happened to the keys. -/
def Feeds (k : Keys) (s : Ps2) (k' : Keys) (s' : Ps2) : Prop :=
  SameSide s s' ∧ Tracks k' s' ∧
    ∃ characters, s'.characters = s.characters ++ characters ∧ k' = k.acceptAll characters

theorem Feeds.refl (h : Tracks k s) : Feeds k s k s :=
  ⟨⟨rfl, rfl, rfl, rfl⟩, h, [], (List.append_nil _).symm, rfl⟩

theorem Feeds.trans {k₁ k₂ k₃ : Keys} {s₁ s₂ s₃ : Ps2} (h : Feeds k₁ s₁ k₂ s₂)
    (h' : Feeds k₂ s₂ k₃ s₃) : Feeds k₁ s₁ k₃ s₃ := by
  obtain ⟨hside, -, first, hfirst, rfl⟩ := h
  obtain ⟨hside', htracks, second, hsecond, rfl⟩ := h'
  refine ⟨⟨hside'.tail.trans hside.tail, hside'.keyboardIrq.trans hside.keyboardIrq,
    hside'.mouseIrq.trans hside.mouseIrq, hside'.mouse.trans hside.mouse⟩, htracks,
    first ++ second, ?_, (Keys.acceptAll_append _ _ _).symm⟩
  rw [hsecond, hfirst, List.append_assoc]

/-- A change of the mouse's part, and of the controller's beyond the keyboard bytes. -/
theorem Feeds.of_frame (h : Tracks k s) (p : MousePacket)
    (e : Spsc ps2MouseQueueCapacity MouseEvent) (hc : c.received = s.controller.received) :
    Feeds k s k { s with controller := c, packet := p, mouseEvents := e } := by
  refine ⟨⟨rfl, rfl, rfl, rfl⟩, ⟨h.holds, h.dropped, ?_, h.keyboard⟩, [], ?_, rfl⟩
  · show s.modifiers = (decodeBytes {} c.received).1
    rw [hc]
    exact h.modifiers
  · show (decodeBytes {} c.received).2 = (decodeBytes {} s.controller.received).2 ++ []
    rw [hc, List.append_nil]

theorem modifiers_lens :
    Code.Lens (fun s : Ps2 => s.modifiers) fun modifiers s => { s with modifiers } :=
  ⟨fun _ _ => rfl, fun _ => rfl, fun _ _ _ => rfl⟩

theorem keys_lens : Code.Lens (fun s : Ps2 => s.keys) fun keys s => { s with keys } :=
  ⟨fun _ _ => rfl, fun _ => rfl, fun _ _ _ => rfl⟩

theorem packet_lens : Code.Lens (fun s : Ps2 => s.packet) fun packet s => { s with packet } :=
  ⟨fun _ _ => rfl, fun _ => rfl, fun _ _ _ => rfl⟩

theorem mouseEvents_lens :
    Code.Lens (fun s : Ps2 => s.mouseEvents) fun mouseEvents s => { s with mouseEvents } :=
  ⟨fun _ _ => rfl, fun _ => rfl, fun _ _ _ => rfl⟩

theorem routeDataByte_mouse (value : UInt8) (s : Ps2) :
    ∃ p e, ((routeDataByte 0x21 value).run s).1 = { s with packet := p, mouseEvents := e } := by
  unfold routeDataByte
  rw [if_pos (by decide)]
  rw [Code.run_bind, Code.run_load]
  dsimp only
  by_cases hmouse : s.mouseAvailable = true
  · rw [if_pos hmouse]
    unfold decodeMouseByte onPacket
    rw [Code.run_bind, Code.run_zoom packet_lens]
    generalize (mousePacketByte value).run s.packet = r
    obtain ⟨p, event⟩ := r
    cases event with
    | none => exact ⟨p, s.mouseEvents, rfl⟩
    | some event =>
      refine ⟨p, ((Spsc.enqueue event).run s.mouseEvents).1, ?_⟩
      show ((onMouseEvents (Spsc.enqueue event)).run { s with packet := p }).1 = _
      unfold onMouseEvents
      rw [Code.run_zoom mouseEvents_lens]
  · rw [if_neg hmouse]
    exact ⟨s.packet, s.mouseEvents, rfl⟩

theorem routeDataByte_keyboard (value : UInt8) (h : s.keyboardAvailable = true) :
    ((routeDataByte 0x01 value).run s).1 =
      match (decodeScanCode value).run s.modifiers with
      | (m, none) => { s with modifiers := m }
      | (m, some character) =>
        { s with modifiers := m, keys := ((Spsc.enqueue character).run s.keys).1 } := by
  unfold routeDataByte
  rw [if_neg (by decide)]
  rw [Code.run_bind, Code.run_load]
  dsimp only
  rw [if_pos h]
  unfold routeKeyboardByte onModifiers
  rw [Code.run_bind, Code.run_zoom modifiers_lens]
  generalize (decodeScanCode value).run s.modifiers = r
  obtain ⟨m, character⟩ := r
  cases character with
  | none => rfl
  | some character =>
    show ((onKeys (Spsc.enqueue character)).run { s with modifiers := m }).1 = _
    unfold onKeys
    rw [Code.run_zoom keys_lens]

theorem Feeds.keyboardByte (h : Tracks k s) (byte : UInt8)
    (hc : c.received = s.controller.received ++ [byte]) :
    ∃ k', Feeds k s k' ((routeDataByte 0x01 byte).run { s with controller := c }).1 := by
  rw [routeDataByte_keyboard byte (s := { s with controller := c }) h.keyboard]
  have hbytes : decodeBytes {} c.received =
      (((decodeScanCode byte).run s.modifiers).1,
        s.characters ++ ((decodeScanCode byte).run s.modifiers).2.toList) := by
    rw [hc, decodeBytes_append, ← h.modifiers]
    simp only [decodeBytes, List.append_nil]
    rfl
  show ∃ k', Feeds k s k' (match (decodeScanCode byte).run s.modifiers with
    | (m, none) => { s with controller := c, modifiers := m }
    | (m, some character) =>
      { s with controller := c, modifiers := m, keys := ((Spsc.enqueue character).run s.keys).1 })
  generalize hrun : (decodeScanCode byte).run s.modifiers = r at hbytes
  obtain ⟨m, character⟩ := r
  cases character with
  | none =>
    refine ⟨k, ⟨rfl, rfl, rfl, rfl⟩, ⟨h.holds, h.dropped, ?_, h.keyboard⟩, [], ?_, rfl⟩
    · exact (congrArg Prod.fst hbytes).symm
    · exact congrArg Prod.snd hbytes
  | some character =>
    obtain ⟨htail, hqueue⟩ := h.holds.enqueue character
    refine ⟨k.accept character, ⟨htail, rfl, rfl, rfl⟩, ?_, [character],
      congrArg Prod.snd hbytes, rfl⟩
    have hm : m = (decodeBytes {} c.received).1 := (congrArg Prod.fst hbytes).symm
    unfold Keys.accept
    by_cases hroom : k.waiting.length < 63
    · rw [if_pos (show k.waiting.length + 1 < ps2KeyQueueCapacity from Nat.succ_lt_succ hroom)]
        at hqueue
      rw [if_pos hroom]
      exact ⟨hqueue.1, hqueue.2.trans h.dropped, hm, h.keyboard⟩
    · rw [if_neg (show ¬ k.waiting.length + 1 < ps2KeyQueueCapacity from
        fun hlt => hroom (Nat.lt_of_succ_lt_succ hlt))] at hqueue
      rw [if_neg hroom]
      refine ⟨hqueue.1, ?_, hm, h.keyboard⟩
      show ((Spsc.enqueue character).run s.keys).1.dropped = UInt64.ofNat (k.lost + 1)
      rw [hqueue.2, h.dropped, UInt64.ofNat_add]
      rfl

/-- The data port gives the byte the status was about: what comes in between the two reads
    goes behind it. -/
theorem tick_front {byte : PortByte} {rest : List PortByte} (h : c.pending = byte :: rest) :
    c.tick.data = byte.value ∧ c.tick.taken.received =
      if byte.fromMouse then c.received else c.received ++ [byte.value] := by
  have hticked : c.tick.pending = byte :: (rest ++ c.arrivals.headD []) := by
    unfold Controller.tick
    rw [h]
    rfl
  constructor
  · unfold Controller.data
    rw [hticked]
  · unfold Controller.taken
    rw [hticked]
    rfl

theorem drain_feeds (left : Nat) (h : Tracks k s) : ∃ k', Feeds k s k' ((drain left).run s).1 := by
  induction left generalizing k s with
  | zero => exact ⟨k, Feeds.refl h⟩
  | succ left ih =>
    rw [drain]
    unfold readStatus
    rw [Code.run_bind, Code.run_atomic]
    dsimp only
    cases hpending : s.controller.tick.pending with
    | nil =>
      have hstatus : s.controller.tick.status = 0 := by
        unfold Controller.status
        rw [hpending]
      rw [hstatus, if_pos (by decide)]
      exact ⟨k, Feeds.of_frame h s.packet s.mouseEvents rfl⟩
    | cons byte rest =>
      obtain ⟨hdata, hreceived⟩ := tick_front hpending
      unfold readData
      cases hfrom : byte.fromMouse with
      | true =>
        have hstatus : s.controller.tick.status = 0x21 := by
          unfold Controller.status
          rw [hpending]
          dsimp only
          rw [if_pos hfrom]
        rw [hstatus, if_neg (by decide)]
        rw [Code.run_bind, Code.run_atomic]
        dsimp only
        rw [hdata, Code.run_bind]
        rw [if_pos hfrom] at hreceived
        obtain ⟨p, e, hroute⟩ := routeDataByte_mouse byte.value
          { s with controller := s.controller.tick.tick.taken }
        rw [hroute]
        have hfed := Feeds.of_frame h (c := s.controller.tick.tick.taken) p e hreceived
        obtain ⟨k', hrest⟩ := ih hfed.2.1
        exact ⟨k', hfed.trans hrest⟩
      | false =>
        have hstatus : s.controller.tick.status = 0x01 := by
          unfold Controller.status
          rw [hpending]
          dsimp only
          rw [if_neg (by rw [hfrom]; decide)]
        rw [hstatus, if_neg (by decide)]
        rw [Code.run_bind, Code.run_atomic]
        dsimp only
        rw [hdata, Code.run_bind]
        rw [if_neg (by rw [hfrom]; decide)] at hreceived
        obtain ⟨k', hfed⟩ :=
          Feeds.keyboardByte h byte.value (c := s.controller.tick.tick.taken) hreceived
        obtain ⟨k'', hrest⟩ := ih hfed.2.1
        exact ⟨k'', hfed.trans hrest⟩

theorem interrupts_feed (n : Nat) (h : Tracks k s) : ∃ k', Feeds k s k' (ps2Interrupt^[n] s) := by
  induction n generalizing k s with
  | zero => exact ⟨k, Feeds.refl h⟩
  | succ n ih =>
    obtain ⟨k', hfed⟩ := drain_feeds 64 h
    obtain ⟨k'', hrest⟩ := ih hfed.2.1
    exact ⟨k'', hfed.trans hrest⟩

/-! ## The main loop -/

/-- A call that took in characters and then the oldest one. -/
def Takes (k : Keys) (s : Ps2) (r : Ps2 × Option UInt8) : Prop :=
  ∃ k' s', Feeds k s k' s' ∧ r.1.characters = s'.characters ∧ r.2 = k'.take.1 ∧
    Tracks k'.take.2 r.1 ∧ r.1.keyboardIrqOnline = s'.keyboardIrqOnline ∧
    r.1.mouseIrqOnline = s'.mouseIrqOnline ∧ r.1.mouseAvailable = s'.mouseAvailable

theorem Feeds.takes {k' : Keys} {s' : Ps2} {r : Ps2 × Option UInt8} (h : Feeds k s k' s')
    (h' : Takes k' s' r) : Takes k s r := by
  obtain ⟨k'', s'', hfed, hrest⟩ := h'
  exact ⟨k'', s'', h.trans hfed, hrest⟩

/-- The reader of the queue, interrupted before each of its four accesses: the handler leaves
    the read position alone and only adds behind what is waiting. -/
theorem dequeueKey_takes (h : Tracks k s) (schedule : List Nat) :
    Takes k s (dequeueKey.runWith ps2Interrupt schedule s) := by
  obtain ⟨k₁, hfed₁⟩ := interrupts_feed (schedule.headD 0) h
  generalize hs₁ : ps2Interrupt^[schedule.headD 0] s = s₁ at hfed₁
  obtain ⟨k₂, hfed₂⟩ := interrupts_feed (schedule.tail.headD 0) hfed₁.2.1
  generalize hs₂ : ps2Interrupt^[schedule.tail.headD 0] s₁ = s₂ at hfed₂
  have hrun : dequeueKey.runWith ps2Interrupt schedule s =
      (onKeys (if s₁.keys.tail = s₂.keys.head then pure none
        else do
          let value ← Code.load fun q => q.cells s₁.keys.tail
          Code.store fun q => { q with tail := s₁.keys.tail + 1 }
          pure (some value))).runWith ps2Interrupt schedule.tail.tail s₂ := by
    rw [← hs₂, ← hs₁]
    rfl
  have htail : s₂.keys.tail = s₁.keys.tail := hfed₂.1.tail
  rw [hrun]
  refine (hfed₁.trans hfed₂).takes ?_
  by_cases hempty : s₁.keys.tail = s₂.keys.head
  · rw [if_pos hempty]
    have hnone : k₂.waiting = [] := hfed₂.2.1.holds.empty_iff.mp (htail.trans hempty)
    have htake : k₂.take = (none, k₂) := by
      obtain ⟨waiting, lost⟩ := k₂
      subst hnone
      rfl
    refine ⟨k₂, s₂, Feeds.refl hfed₂.2.1, rfl, ?_, ?_, rfl, rfl, rfl⟩
    · rw [htake]
      rfl
    · rw [htake]
      exact hfed₂.2.1
  rw [if_neg hempty]
  obtain ⟨k₃, hfed₃⟩ := interrupts_feed (schedule.tail.tail.headD 0) hfed₂.2.1
  generalize hs₃ : ps2Interrupt^[schedule.tail.tail.headD 0] s₂ = s₃ at hfed₃
  obtain ⟨k₄, hfed₄⟩ := interrupts_feed (schedule.tail.tail.tail.headD 0) hfed₃.2.1
  generalize hs₄ : ps2Interrupt^[schedule.tail.tail.tail.headD 0] s₃ = s₄ at hfed₄
  have hend : (onKeys (do
      let value ← Code.load fun q => q.cells s₁.keys.tail
      Code.store fun q => { q with tail := s₁.keys.tail + 1 }
      pure (some value))).runWith ps2Interrupt schedule.tail.tail s₂ =
      ({ s₄ with keys := { s₄.keys with tail := s₁.keys.tail + 1 } },
        some (s₃.keys.cells s₁.keys.tail)) := by
    rw [← hs₄, ← hs₃]
    rfl
  rw [hend]
  -- what was waiting at the second load is still in front at the third and at the store
  have hsome : k₂.waiting ≠ [] := fun hnone =>
    hempty (htail.symm.trans (hfed₂.2.1.holds.empty_iff.mpr hnone))
  obtain ⟨value, rest, hwaiting⟩ := List.exists_cons_of_ne_nil hsome
  obtain ⟨-, htracks₃, characters₃, -, hk₃⟩ := id hfed₃
  obtain ⟨-, htracks₄, characters₄, -, hk₄⟩ := id hfed₄
  obtain ⟨more₃, hmore₃⟩ := k₂.acceptAll_waiting characters₃
  obtain ⟨more₄, hmore₄⟩ := k₃.acceptAll_waiting characters₄
  rw [← hk₃, hwaiting, List.cons_append] at hmore₃
  rw [← hk₄, hmore₃, List.cons_append] at hmore₄
  have htail₃ : s₃.keys.tail = s₁.keys.tail := hfed₃.1.tail.trans htail
  have htail₄ : s₄.keys.tail = s₁.keys.tail := hfed₄.1.tail.trans htail₃
  have hfront : s₃.keys.cells s₁.keys.tail = value := by
    rw [← htail₃]
    exact (hmore₃ ▸ htracks₃.holds).front
  have htake : k₄.take = (some value, { k₄ with waiting := rest ++ more₃ ++ more₄ }) := by
    unfold Keys.take
    rw [hmore₄]
    rfl
  refine ⟨k₄, s₄, hfed₃.trans hfed₄, rfl, ?_, ?_, rfl, rfl, rfl⟩
  · rw [htake, hfront]
  · rw [htake]
    refine ⟨?_, htracks₄.dropped, htracks₄.modifiers, htracks₄.keyboard⟩
    show Spsc.Holds { s₄.keys with tail := s₁.keys.tail + 1 } (rest ++ more₃ ++ more₄)
    rw [← htail₄]
    exact (hmore₄ ▸ htracks₄.holds).advance

/-- The drain loop runs on one side: in the handler or in the main loop. -/
structure OneSided (s : Ps2) : Prop where
  mouse : s.mouseAvailable = true
  irq : s.keyboardIrqOnline = s.mouseIrqOnline

/-- A call that drains if its device is polled, and then reads its queue. -/
def deviceCall (available irq : Ps2 → Bool) (read : Code Ps2 (Option α)) : Code Ps2 (Option α) := do
  let present ← Code.load available
  if !present then pure none
  else
    let online ← Code.load irq
    if !online then drainController else pure ()
    read

theorem deviceCall_reads {available irq : Ps2 → Bool} (h : Tracks k s) (hside : OneSided s)
    (havailable : ∀ k' s', Feeds k s k' s' → available s' = true)
    (hirq : ∀ k' s', Feeds k s k' s' → irq s' = s.keyboardIrqOnline) (read : Code Ps2 (Option α))
    (schedule : List Nat) :
    ∃ k' s' rest, Feeds k s k' s' ∧
      (deviceCall available irq read).runWith ps2Interrupt (s.interruptible schedule) s =
        read.runWith ps2Interrupt rest s' := by
  unfold Ps2.interruptible
  rw [← hside.irq, Bool.or_self]
  cases honline : s.keyboardIrqOnline with
  | true =>
    obtain ⟨k₁, hfed₁⟩ := interrupts_feed (schedule.headD 0) h
    generalize hs₁ : ps2Interrupt^[schedule.headD 0] s = s₁ at hfed₁
    obtain ⟨k₂, hfed₂⟩ := interrupts_feed (schedule.tail.headD 0) hfed₁.2.1
    generalize hs₂ : ps2Interrupt^[schedule.tail.headD 0] s₁ = s₂ at hfed₂
    have hfed := hfed₁.trans hfed₂
    refine ⟨k₂, s₂, schedule.tail.tail, hfed, ?_⟩
    unfold deviceCall
    unfold Code.load
    rw [if_pos rfl, Code.runWith_atomic_bind, hs₁]
    dsimp only [id]
    rw [havailable _ _ hfed₁, if_neg (by decide), Code.runWith_atomic_bind, hs₂]
    dsimp only [id]
    rw [hirq _ _ hfed, honline, if_neg (by decide)]
  | false =>
    obtain ⟨k', hfed⟩ := drain_feeds 64 h
    refine ⟨k', _, [], hfed, ?_⟩
    rw [if_neg (by decide), Code.runWith_nil, Code.runWith_nil]
    unfold deviceCall
    rw [Code.run_bind, Code.run_load]
    dsimp only
    rw [havailable _ _ (.refl h), if_neg (by decide), Code.run_bind, Code.run_load]
    dsimp only
    rw [hirq _ _ (.refl h), honline, if_pos (by decide), Code.run_bind, drainController]

theorem getc_takes (h : Tracks k s) (hside : OneSided s) (schedule : List Nat) :
    Takes k s (s.getc schedule) := by
  obtain ⟨k', s', rest, hfed, hrun⟩ := deviceCall_reads h hside (fun _ _ hfed => hfed.2.1.keyboard)
    (fun _ _ hfed => hfed.1.keyboardIrq) dequeueKey schedule
  rw [show s.getc schedule = _ from hrun]
  exact hfed.takes (dequeueKey_takes hfed.2.1 rest)

/-- Code for the mouse queue, interrupted anywhere. -/
theorem mouseCode_feeds (c : Code (Spsc ps2MouseQueueCapacity MouseEvent) α) (h : Tracks k s)
    (schedule : List Nat) :
    ∃ k', Feeds k s k' ((onMouseEvents c).runWith ps2Interrupt schedule s).1 := by
  induction c generalizing k s schedule with
  | ret value => exact ⟨k, Feeds.refl h⟩
  | act effect next ih =>
    obtain ⟨k₁, hfed₁⟩ := interrupts_feed (schedule.headD 0) h
    generalize hs₁ : ps2Interrupt^[schedule.headD 0] s = s₁ at hfed₁
    have hrun : (onMouseEvents (Code.act effect next)).runWith ps2Interrupt schedule s =
        (onMouseEvents (next s₁.mouseEvents)).runWith ps2Interrupt schedule.tail
          { s₁ with mouseEvents := effect s₁.mouseEvents } := by
      rw [← hs₁]
      rfl
    have hframe :=
      Feeds.of_frame hfed₁.2.1 s₁.packet (effect s₁.mouseEvents) (Eq.refl s₁.controller.received)
    obtain ⟨k₂, hrest⟩ := ih s₁.mouseEvents hframe.2.1 schedule.tail
    rw [hrun]
    exact ⟨k₂, (hfed₁.trans hframe).trans hrest⟩

theorem mouseEvent_feeds (h : Tracks k s) (hside : OneSided s) (schedule : List Nat) :
    ∃ k', Feeds k s k' (s.mouseEvent schedule).1 := by
  obtain ⟨k', s', rest, hfed, hrun⟩ := deviceCall_reads h hside
    (fun _ _ hfed => hfed.1.mouse.trans hside.mouse)
    (fun _ _ hfed => hfed.1.mouseIrq.trans hside.irq.symm) dequeueMouseEvent schedule
  obtain ⟨k'', hrest⟩ := mouseCode_feeds Spsc.dequeue hfed.2.1 rest
  rw [show s.mouseEvent schedule = _ from hrun]
  exact ⟨k'', hfed.trans hrest⟩

theorem newCharacters_eq {s' : Ps2} {characters : List UInt8}
    (h : s'.characters = s.characters ++ characters) : newCharacters s s' = characters := by
  unfold newCharacters
  rw [h, List.drop_left]

theorem follows_of_tracks (turns : List Turn) (h : Tracks k s) (hside : OneSided s) :
    Follows k s turns := by
  induction turns generalizing k s with
  | nil => exact h.dropped
  | cons turn rest ih =>
    cases turn with
    | getc schedule =>
      obtain ⟨k', s', ⟨hsame, -, characters, hcharacters, rfl⟩, hread, hresult,
          htracks, hk, hm, ha⟩ :=
        getc_takes h hside schedule
      have hnew : newCharacters s (s.getc schedule).1 = characters :=
        newCharacters_eq (hread.trans hcharacters)
      unfold Follows
      rw [hnew]
      refine ⟨hresult, ih htracks ⟨?_, ?_⟩⟩
      · rw [ha, hsame.mouse, hside.mouse]
      · rw [hk, hm, hsame.keyboardIrq, hsame.mouseIrq, hside.irq]
    | mouseEvent schedule =>
      obtain ⟨k', hsame, htracks, characters, hcharacters, rfl⟩ := mouseEvent_feeds h hside schedule
      unfold Follows
      rw [newCharacters_eq hcharacters]
      refine ih htracks ⟨?_, ?_⟩
      · rw [hsame.mouse, hside.mouse]
      · rw [hsame.keyboardIrq, hsame.mouseIrq, hside.irq]

theorem earlyBytes_feed (early : List UInt8) (h : Tracks k s) :
    ∃ k', Feeds k s k' (early.foldl earlyByte s) := by
  induction early generalizing k s with
  | nil => exact ⟨k, Feeds.refl h⟩
  | cons byte rest ih =>
    obtain ⟨k', hfed⟩ := Feeds.keyboardByte h byte
      (c := { s.controller with received := s.controller.received ++ [byte] }) rfl
    obtain ⟨k'', hrest⟩ := ih hfed.2.1
    exact ⟨k'', hfed.trans hrest⟩

theorem afterKeyboardInit_tracks (keyboardIrq : Bool) (arrivals : List (List PortByte)) :
    Tracks {} (afterKeyboardInit keyboardIrq arrivals) :=
  ⟨⟨by decide, rfl, rfl⟩, rfl, rfl, rfl⟩

theorem booted_tracks (keyboardIrq mouseIrq : Bool) (early : List UInt8)
    (arrivals : List (List PortByte)) :
    Tracks (startKeys (booted keyboardIrq mouseIrq early arrivals))
      (booted keyboardIrq mouseIrq early arrivals) ∧
    (booted keyboardIrq mouseIrq early arrivals).keyboardIrqOnline = keyboardIrq := by
  obtain ⟨k, hsame, htracks, characters, hcharacters, rfl⟩ :=
    earlyBytes_feed early (afterKeyboardInit_tracks keyboardIrq arrivals)
  have hall : (booted keyboardIrq mouseIrq early arrivals).characters = characters := hcharacters
  unfold startKeys
  rw [hall]
  exact ⟨⟨htracks.holds, htracks.dropped, htracks.modifiers, htracks.keyboard⟩, hsame.keyboardIrq⟩

/-! ## Runs that lose a key -/

instance followsDecidable : (k : Keys) → (s : Ps2) →
    (turns : List Turn) → Decidable (Follows k s turns)
  | _, _, [] => inferInstanceAs (Decidable (_ = _))
  | k, s, .getc schedule :: rest =>
    let k' := k.acceptAll (newCharacters s (s.getc schedule).1)
    have := followsDecidable k'.take.2 (s.getc schedule).1 rest
    inferInstanceAs (Decidable (_ ∧ _))
  | k, s, .mouseEvent schedule :: rest =>
    followsDecidable (k.acceptAll (newCharacters s (s.mouseEvent schedule).1))
      (s.mouseEvent schedule).1 rest

/-- The byte of the A key comes in before the first port access, the byte of the S key once the
    first has been read. -/
def twoKeys : List (List PortByte) := [[⟨false, 0x1E⟩], [], [⟨false, 0x1F⟩]]

/-- The handler runs when the polling drain has loaded the write position in `queue_key` and not
    yet the read position. -/
def insideQueueKey : List Nat := [0, 0, 0, 0, 0, 0, 0, 0, 0, 0, 1]

/-- The keyboard is on interrupts, the mouse is polled: the character that the handler queued is
    overwritten, and not counted. -/
theorem polled_mouse_loses_key :
    ¬ Follows (startKeys (booted true false [] twoKeys)) (booted true false [] twoKeys)
      [.mouseEvent insideQueueKey, .getc [], .getc []] := by
  decide +kernel

theorem polled_keyboard_loses_key :
    ¬ Follows (startKeys (booted false true [] twoKeys)) (booted false true [] twoKeys)
      [.getc insideQueueKey, .getc []] := by
  decide +kernel

/-- The keys are delivered as by the abstract keyboard, in every run and for every time at which
    bytes come in and the handler runs, exactly when both devices are on interrupts or both are
    polled. -/
theorem key_delivery_iff (keyboardIrq mouseIrq : Bool) :
    (∀ early arrivals turns,
      Follows (startKeys (booted keyboardIrq mouseIrq early arrivals))
        (booted keyboardIrq mouseIrq early arrivals) turns) ↔
    keyboardIrq = mouseIrq := by
  constructor
  · intro h
    cases keyboardIrq <;> cases mouseIrq
    · rfl
    · exact absurd (h [] twoKeys _) polled_keyboard_loses_key
    · exact absurd (h [] twoKeys _) polled_mouse_loses_key
    · rfl
  · rintro rfl early arrivals turns
    obtain ⟨htracks, hirq⟩ := booted_tracks keyboardIrq keyboardIrq early arrivals
    exact follows_of_tracks turns htracks ⟨rfl, hirq⟩

/-- A run in numbers, with the keyboard on interrupts and the mouse polled: two characters are
    decoded, one is returned, the queue is then empty and no key has been counted as dropped. -/
theorem key_lost_uncounted :
    let polled := ((booted true false [] twoKeys).mouseEvent insideQueueKey).1
    let first := polled.getc []
    let second := first.1.getc []
    second.1.characters = [0x61, 0x73] ∧ first.2 = some 0x61 ∧ second.2 = none ∧
      second.1.keys.dropped = 0 ∧
    ¬ Follows (startKeys (booted true false [] twoKeys)) (booted true false [] twoKeys)
      [.mouseEvent insideQueueKey, .getc [], .getc []] := by
  decide +kernel

end ArgusOs.Input
