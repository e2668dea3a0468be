import Khala.Js.Socket
import Khala.Library.Runs

/-!
# The calls of a socket on JS

A `ZmqSocket` under any calls of `connect`, `bind` and `close`, and with the callbacks of the
wrapped socket's binds in between. Each bind of the wrapped socket calls back at most once, later.
One that throws is one that never calls back; on a WebSocket socket, whose binds do not call back,
the call then leaves `bindFinished` unset.

`serialises_binds` says what the queue is for: of the binds of the wrapped socket one is outstanding
at a time, and `close` waits for all of them. `closedForGood_iff` says when a close is the last that
the wrapped socket hears.
-/

namespace Khala.Js

open Transitions

/-- The address of a call of the wrapped socket, if it is a bind. -/
def RawCall.bound? : RawCall → Option String
  | .connect _ => none
  | .bind address => some address
  | .close => none

namespace ZmqSocket

/-- `bind` of a WebSocket socket, if the bind of the wrapped socket throws. -/
def bindThrows (address : String) (socket : ZmqSocket) : ZmqSocket :=
  if socket.isClosed then socket
  else if !socket.bindFinished then { socket with bindQueue := socket.bindQueue ++ [address] }
  else { socket with bindFinished := false, raw := socket.raw ++ [.bind address] }

section Calls

variable {socket : ZmqSocket} (address : String)

/-- A bind that throws when none is under way is counted as under way. -/
theorem bindThrows_of_finished (hopen : socket.isClosed = false)
    (hfinished : socket.bindFinished = true) : socket.bindThrows address =
      { socket with bindFinished := false, raw := socket.raw ++ [.bind address] } := by
  simp [bindThrows, hopen, hfinished]

/-- A bind that would throw is put off while another one is under way. -/
theorem bindThrows_of_not_finished (hopen : socket.isClosed = false)
    (hfinished : socket.bindFinished = false) :
    socket.bindThrows address = { socket with bindQueue := socket.bindQueue ++ [address] } := by
  simp [bindThrows, hopen, hfinished]

end Calls

/-- `close` reaches the wrapped socket at most once, and no call reaches it later. -/
def ClosedForGood (socket : ZmqSocket) : Prop :=
  ∀ before after, socket.raw = before ++ .close :: after → after = []

/-- A further call is the last one only of a socket that was not closed. -/
theorem closedForGood_append_iff {socket socket' : ZmqSocket} {c : RawCall}
    (hraw : socket'.raw = socket.raw ++ [c]) : socket'.ClosedForGood ↔ .close ∉ socket.raw := by
  constructor
  · intro h hmem
    obtain ⟨before, after, heq⟩ := List.append_of_mem hmem
    have hnil := h before (after ++ [c]) (by rw [hraw, heq]; simp)
    exact List.append_ne_nil_of_right_ne_nil _ (List.cons_ne_nil c []) hnil
  · intro hnot before after heq
    rw [hraw] at heq
    obtain ⟨-, -, hnil⟩ | ⟨rest, -, hrest⟩ := append_singleton_eq_iff.mp heq
    · exact hnil
    · refine absurd ?_ hnot
      rw [hrest]
      exact List.mem_append_right _ List.mem_cons_self

/-- What was closed for good before another call of the library is so without that call. -/
theorem ClosedForGood.of_append {socket socket' : ZmqSocket} {c : RawCall}
    (h : socket'.ClosedForGood) (hraw : socket'.raw = socket.raw ++ [c]) :
    socket.ClosedForGood := by
  intro before after heq
  refine absurd ?_ ((closedForGood_append_iff hraw).mp h)
  rw [heq]
  exact List.mem_append_right _ List.mem_cons_self

end ZmqSocket

/-- A socket, and how many binds of the wrapped socket have called back. -/
structure SocketUse where
  socket : ZmqSocket
  calledBack : ℕ

/-- What can happen to a socket. -/
inductive SocketEvent
  /-- `connect` is called. -/
  | connect (address : String)
  /-- `bind` is called. -/
  | bind (address : String)
  /-- `bind` is called, and throws if it reaches the wrapped socket. -/
  | bindThrows (address : String)
  /-- `close` is called. -/
  | close
  /-- A bind of the wrapped socket calls back, with an error or without. -/
  | called (err : Option String)

/-- The addresses of the binds of the wrapped socket, in the order of the calls. -/
def SocketUse.issued (s : SocketUse) : List String := s.socket.raw.filterMap RawCall.bound?

/-- How many binds of the wrapped socket have not called back. -/
def SocketUse.outstanding (s : SocketUse) : ℕ := s.issued.length - s.calledBack

/-- One step. The error that a callback is given is printed and makes no other difference. -/
inductive SocketStep : SocketUse → SocketEvent → SocketUse → Prop
  | connect {s : SocketUse} (address : String) :
      SocketStep s (.connect address) { s with socket := s.socket.connect address }
  | bind {s : SocketUse} (address : String) :
      SocketStep s (.bind address) { s with socket := s.socket.bind address }
  | bindThrows {s : SocketUse} (address : String) : s.socket.webSocket = true →
      SocketStep s (.bindThrows address) { s with socket := s.socket.bindThrows address }
  | close {s : SocketUse} : SocketStep s .close { s with socket := s.socket.close }
  | called {s : SocketUse} (err : Option String) : s.socket.webSocket = false →
      s.calledBack < s.issued.length →
      SocketStep s (.called err)
        { s with socket := s.socket.bindCallback, calledBack := s.calledBack + 1 }

/-- A socket from its creation on. -/
def ZmqSocket.system (webSocket : Bool) : System SocketUse SocketEvent where
  init := ⟨.new webSocket, 0⟩
  step := SocketStep

/-! ## What was called -/

/-- The address that `bind` is called with. -/
def SocketEvent.requested? : SocketEvent → Option String
  | .bind address => some address
  | .bindThrows address => some address
  | _ => none

/-- Whether a bind calls back. -/
def SocketEvent.isCalled : SocketEvent → Bool
  | .called _ => true
  | _ => false

/-- Whether a call of `bind` throws. -/
def SocketEvent.threw : SocketEvent → Bool
  | .bindThrows _ => true
  | _ => false

/-- A call of the socket. -/
def SocketEvent.IsCall : SocketEvent → Prop
  | .called _ => False
  | _ => True

/-- The addresses that `bind` was called with. -/
def requested (tr : List (SocketUse × SocketEvent)) : List String :=
  tr.filterMap fun a => a.2.requested?

/-- `close` was called. -/
def Closing (tr : List (SocketUse × SocketEvent)) : Prop := ∃ a ∈ tr, a.2 = .close

/-- All binds that were called have finished: they have returned, on a WebSocket socket, and have
called back on another one. -/
def BindsFinished (webSocket : Bool) (tr : List (SocketUse × SocketEvent)) : Prop :=
  if webSocket then ∀ a ∈ tr, a.2.threw = false
  else (requested tr).length = tr.countP fun a => a.2.isCalled

/-- No call comes when `close` was called and all binds that were called have finished. -/
def CallsInTime (webSocket : Bool) (tr : List (SocketUse × SocketEvent)) : Prop :=
  ∀ before a after, tr = before ++ a :: after → a.2.IsCall →
    ¬ (Closing before ∧ BindsFinished webSocket before)

section Traces

variable {tr : List (SocketUse × SocketEvent)} {s : SocketUse} {l : SocketEvent}

/-- A step adds the address that it asks to bind. -/
@[simp] theorem requested_append :
    requested (tr ++ [(s, l)]) = requested tr ++ l.requested?.toList := by
  cases l <;> simp [requested, SocketEvent.requested?]

/-- A close has been asked for before the last step, or in it. -/
@[simp] theorem closing_append : Closing (tr ++ [(s, l)]) ↔ Closing tr ∨ l = .close := by
  simp [Closing, or_and_right, exists_or]

/-- The calls of a run are in time if those before the last step are, and that one is. -/
theorem callsInTime_append_iff {webSocket : Bool} :
    CallsInTime webSocket (tr ++ [(s, l)]) ↔
      CallsInTime webSocket tr ∧ (l.IsCall → ¬ (Closing tr ∧ BindsFinished webSocket tr)) := by
  unfold CallsInTime
  exact forall_split_append_singleton (P := fun before (a : SocketUse × SocketEvent) =>
    a.2.IsCall → ¬ (Closing before ∧ BindsFinished webSocket before))

end Traces

/-! ## One step -/

/-- A socket that no bind occupies has nothing in its queue and no close put off. Of a socket that
does not do WebSocket, a bind is outstanding while one occupies it. -/
structure SocketUse.WellFormed (s : SocketUse) : Prop where
  isOpen : s.socket.isClosed = false
  idle : s.socket.bindFinished = true → s.socket.bindQueue = [] ∧ s.socket.shouldClose = false
  issued : s.socket.webSocket = false →
    s.issued.length = s.calledBack + if s.socket.bindFinished then 0 else 1

/-- What a step does: a call reaches the wrapped socket, or waits for the bind that occupies the
socket; and when that bind calls back, the next one is issued, or the close that was put off. -/
inductive SocketChange (s : SocketUse) : SocketEvent → SocketUse → Prop
  | connect (address : String) :
      SocketChange s (.connect address)
        { s with socket := { s.socket with raw := s.socket.raw ++ [.connect address] } }
  | bind (address : String) : s.socket.bindFinished = true →
      SocketChange s (.bind address)
        { s with socket :=
            { s.socket with
              bindFinished := s.socket.webSocket
              raw := s.socket.raw ++ [.bind address] } }
  | bindThrows (address : String) : s.socket.webSocket = true → s.socket.bindFinished = true →
      SocketChange s (.bindThrows address)
        { s with socket :=
            { s.socket with bindFinished := false, raw := s.socket.raw ++ [.bind address] } }
  | wait {l : SocketEvent} (address : String) : l.requested? = some address →
      s.socket.bindFinished = false →
      SocketChange s l
        { s with socket := { s.socket with bindQueue := s.socket.bindQueue ++ [address] } }
  | close : s.socket.bindFinished = true →
      SocketChange s .close
        { s with socket :=
            { s.socket with shouldClose := false, raw := s.socket.raw ++ [.close] } }
  | putOff : s.socket.bindFinished = false →
      SocketChange s .close { s with socket := { s.socket with shouldClose := true } }
  | next (err : Option String) (address : String) (rest : List String) :
      s.socket.webSocket = false → s.socket.bindFinished = false →
      s.socket.bindQueue = address :: rest →
      SocketChange s (.called err)
        { calledBack := s.calledBack + 1
          socket :=
            { s.socket with
              bindFinished := s.socket.webSocket
              bindQueue := rest
              raw := s.socket.raw ++ [.bind address] } }
  | closeLast (err : Option String) : s.socket.webSocket = false →
      s.socket.bindFinished = false → s.socket.bindQueue = [] → s.socket.shouldClose = true →
      SocketChange s (.called err)
        { calledBack := s.calledBack + 1
          socket :=
            { s.socket with
              bindFinished := true
              shouldClose := false
              raw := s.socket.raw ++ [.close] } }
  | free (err : Option String) : s.socket.webSocket = false → s.socket.bindFinished = false →
      s.socket.bindQueue = [] → s.socket.shouldClose = false →
      SocketChange s (.called err)
        { calledBack := s.calledBack + 1, socket := { s.socket with bindFinished := true } }

section Steps

variable {s t : SocketUse} {l : SocketEvent}

/-- A bind that calls back occupies its socket. -/
theorem SocketUse.WellFormed.bindFinished (h : s.WellFormed) (hweb : s.socket.webSocket = false)
    (hlt : s.calledBack < s.issued.length) : s.socket.bindFinished = false := by
  have hissued := h.issued hweb
  cases hfinished : s.socket.bindFinished with
  | false => rfl
  | true =>
    simp only [hfinished, if_true, Nat.add_zero] at hissued
    omega

/-- A step changes a socket in one of the ways of `SocketChange`. -/
theorem SocketStep.change (hs : SocketStep s l t) (h : s.WellFormed) : SocketChange s l t := by
  have hopen := h.isOpen
  cases hs with
  | connect address =>
    rw [ZmqSocket.connect_of_open address hopen]
    exact .connect address
  | bind address =>
    cases hfinished : s.socket.bindFinished with
    | true =>
      rw [ZmqSocket.bind_of_finished address hopen hfinished]
      exact .bind address hfinished
    | false =>
      rw [ZmqSocket.bind_of_not_finished address hopen hfinished]
      exact .wait (l := .bind address) address rfl hfinished
  | bindThrows address hweb =>
    cases hfinished : s.socket.bindFinished with
    | true =>
      rw [ZmqSocket.bindThrows_of_finished address hopen hfinished]
      exact .bindThrows address hweb hfinished
    | false =>
      rw [ZmqSocket.bindThrows_of_not_finished address hopen hfinished]
      exact .wait (l := .bindThrows address) address rfl hfinished
  | close =>
    cases hfinished : s.socket.bindFinished with
    | true =>
      rw [ZmqSocket.close_of_finished hopen hfinished]
      exact .close hfinished
    | false =>
      rw [ZmqSocket.close_of_not_finished hopen hfinished]
      exact .putOff hfinished
  | called err hweb hlt =>
    have hfinished := h.bindFinished hweb hlt
    cases hqueue : s.socket.bindQueue with
    | cons address rest =>
      rw [ZmqSocket.bindCallback_of_cons address hopen hqueue]
      exact .next err address rest hweb hfinished hqueue
    | nil =>
      rw [ZmqSocket.bindCallback_of_nil hopen hqueue]
      split_ifs with hclose
      · exact .closeLast err hweb hfinished hqueue hclose
      · exact .free err hweb hfinished hqueue (Bool.eq_false_iff.mpr hclose)

/-- A bind is outstanding exactly while one occupies the socket. -/
theorem SocketUse.WellFormed.outstanding_eq (h : s.WellFormed)
    (hweb : s.socket.webSocket = false) :
    s.outstanding = if s.socket.bindFinished then 0 else 1 := by
  rw [SocketUse.outstanding, h.issued hweb, Nat.add_sub_cancel_left]

/-- A step keeps a socket well-formed. -/
theorem SocketStep.wellFormed (hs : SocketStep s l t) (h : s.WellFormed) : t.WellFormed := by
  obtain ⟨hopen, hidle, hissued⟩ := h
  constructor
  · cases hs.change ⟨hopen, hidle, hissued⟩ <;> exact hopen
  · cases hs.change ⟨hopen, hidle, hissued⟩ <;> simp_all
  · cases hs.change ⟨hopen, hidle, hissued⟩ <;> simp_all [SocketUse.issued, RawCall.bound?]

/-- A step does not turn a socket into one of another kind. -/
theorem SocketStep.webSocket (hs : SocketStep s l t) (h : s.WellFormed) :
    t.socket.webSocket = s.socket.webSocket := by
  cases hs.change h <;> rfl

/-- A bind that is requested is issued, or waits behind those that were requested before it. -/
theorem SocketStep.requested (hs : SocketStep s l t) (h : s.WellFormed) :
    t.issued ++ t.socket.bindQueue = s.issued ++ s.socket.bindQueue ++ l.requested?.toList := by
  have hidle := h.idle
  cases hs.change h with
  | wait address hl =>
    rw [hl, List.append_assoc]
    rfl
  | _ => simp_all [SocketUse.issued, RawCall.bound?, SocketEvent.requested?]

/-- A step counts the callback that is called in it. -/
theorem SocketStep.calledBack (hs : SocketStep s l t) :
    t.calledBack = s.calledBack + if l.isCalled then 1 else 0 := by
  cases hs <;> rfl

/-- A bind of a WebSocket socket that throws occupies it for good. -/
theorem SocketStep.threw (hs : SocketStep s l t) (h : s.WellFormed)
    (hweb : s.socket.webSocket = true) :
    t.socket.bindFinished = true ↔ s.socket.bindFinished = true ∧ l.threw = false := by
  cases hs.change h <;> simp_all [SocketEvent.threw]

/-- A `close` reaches the wrapped socket, or is put off until it does. -/
theorem SocketStep.closing (hs : SocketStep s l t) (h : s.WellFormed) :
    (t.socket.shouldClose = true ∨ .close ∈ t.socket.raw) ↔
      (s.socket.shouldClose = true ∨ .close ∈ s.socket.raw) ∨ l = .close := by
  have hidle := h.idle
  cases hs.change h with
  | wait address hl =>
    have hne : l ≠ .close := by
      rintro rfl
      cases hl
    simp [hne]
  | _ => simp_all

/-- At most one call of the wrapped socket is made in a step. -/
theorem SocketStep.raw (hs : SocketStep s l t) (h : s.WellFormed) :
    t.socket.raw = s.socket.raw ∨ ∃ c, t.socket.raw = s.socket.raw ++ [c] := by
  cases hs.change h with
  | wait | putOff | free => exact .inl rfl
  | connect | bind | bindThrows | close | next | closeLast => exact .inr ⟨_, rfl⟩

/-- A step that calls `close` of the wrapped socket makes no other call. -/
theorem SocketStep.raw_of_count_lt (hs : SocketStep s l t) (h : s.WellFormed)
    (hcloses : s.socket.raw.count .close < t.socket.raw.count .close) :
    t.socket.raw = s.socket.raw ++ [.close] := by
  obtain hraw | ⟨c, hraw⟩ := hs.raw h
  · rw [hraw] at hcloses
    exact absurd hcloses (lt_irrefl _)
  · rw [hraw, List.count_append, Nat.lt_add_right_iff_pos, List.count_pos_iff,
      List.mem_singleton] at hcloses
    rw [hraw, hcloses]

/-- While no bind occupies the socket, only calls are left, and they reach the wrapped socket. -/
theorem SocketStep.reaches (hs : SocketStep s l t) (h : s.WellFormed)
    (hfinished : s.socket.bindFinished = true) :
    l.IsCall ∧ ∃ c, t.socket.raw = s.socket.raw ++ [c] := by
  cases hs.change h with
  | connect | bind | bindThrows | close => exact ⟨trivial, _, rfl⟩
  | wait _ _ hbusy | putOff hbusy | next _ _ _ _ hbusy | closeLast _ _ hbusy | free _ _ hbusy =>
    cases hfinished.symm.trans hbusy

/-- `close` reaches the wrapped socket while no bind occupies it, and in a step that requests no
bind. -/
theorem SocketStep.of_close (hs : SocketStep s l t) (h : s.WellFormed)
    (hclose : t.socket.raw = s.socket.raw ++ [.close]) :
    t.socket.bindFinished = true ∧ l.requested? = none := by
  cases hs.change h with
  | close hfinished => exact ⟨hfinished, rfl⟩
  | closeLast => exact ⟨rfl, rfl⟩
  | _ => simp at hclose

end Steps

/-! ## Runs -/

section Runs

variable {webSocket : Bool} {tr : List (SocketUse × SocketEvent)} {s : SocketUse}

/-- The sockets of a run are well-formed. -/
theorem wellFormed (h : (ZmqSocket.system webSocket).Run tr s) : s.WellFormed := by
  refine h.invariant ⟨rfl, fun _ => ⟨rfl, rfl⟩, fun _ => rfl⟩ fun hi hs => ?_
  exact SocketStep.wellFormed hs hi

/-- The socket of a run is of the kind that it was opened as. -/
theorem webSocket_eq (h : (ZmqSocket.system webSocket).Run tr s) :
    s.socket.webSocket = webSocket := by
  induction h with
  | init => rfl
  | step hr hs ih => exact (SocketStep.webSocket hs (wellFormed hr)).trans ih

/-- The binds of the wrapped socket and those that wait are the ones that were requested. -/
theorem issued_append_bindQueue (h : (ZmqSocket.system webSocket).Run tr s) :
    s.issued ++ s.socket.bindQueue = requested tr := by
  induction h with
  | init => rfl
  | step hr hs ih => rw [SocketStep.requested hs (wellFormed hr), ih, requested_append]

/-- The callbacks of a run are counted. -/
theorem calledBack_eq (h : (ZmqSocket.system webSocket).Run tr s) :
    s.calledBack = tr.countP fun a => a.2.isCalled := by
  induction h with
  | init => rfl
  | step hr hs ih =>
    rw [SocketStep.calledBack hs, ih, List.countP_append, List.countP_singleton]

/-- A close has been asked for if the socket is to be closed, or was. -/
theorem closing_iff (h : (ZmqSocket.system webSocket).Run tr s) :
    Closing tr ↔ s.socket.shouldClose = true ∨ .close ∈ s.socket.raw := by
  induction h with
  | init => simp [Closing, ZmqSocket.system, ZmqSocket.new]
  | step hr hs ih => rw [closing_append, ih, SocketStep.closing hs (wellFormed hr)]

/-- No bind occupies the socket exactly when all binds that were called have finished. -/
theorem bindFinished_iff (h : (ZmqSocket.system webSocket).Run tr s) :
    s.socket.bindFinished = true ↔ BindsFinished webSocket tr := by
  cases webSocket with
  | true =>
    induction h with
    | init => simp [BindsFinished, ZmqSocket.system, ZmqSocket.new]
    | step hr hs ih =>
      rw [SocketStep.threw hs (wellFormed hr) (webSocket_eq hr), ih]
      simp [BindsFinished, or_imp, forall_and]
  | false =>
    obtain ⟨-, hidle, hissued⟩ := wellFormed h
    have hrequested := congrArg List.length (issued_append_bindQueue h)
    have hcalled := calledBack_eq h
    have hissued := hissued (webSocket_eq h)
    rw [List.length_append] at hrequested
    simp only [BindsFinished, Bool.false_eq_true, if_false]
    cases hfinished : s.socket.bindFinished with
    | true =>
      have hqueue := (hidle hfinished).1
      simp only [hfinished, hqueue, if_true, List.length_nil] at hissued hrequested
      simp only [true_iff]
      omega
    | false =>
      simp only [hfinished, Bool.false_eq_true, if_false] at hissued
      simp only [Bool.false_eq_true, false_iff]
      omega

/-- In a run of a socket that does not do WebSocket: at most one bind of the wrapped socket is
outstanding; its binds are the first of those that were requested, in their order, and the others
are in the queue; when a step calls its `close`, none is outstanding or waits, and all that were
requested were issued; and when all have called back, none waits, and `close` has reached the
wrapped socket if it was called. -/
theorem serialises_binds (h : (ZmqSocket.system false).Run tr s) :
    s.outstanding ≤ 1 ∧
    s.issued ++ s.socket.bindQueue = requested tr ∧
    (∀ l t, SocketStep s l t → s.socket.raw.count .close < t.socket.raw.count .close →
      t.outstanding = 0 ∧ t.socket.bindQueue = [] ∧ t.issued = requested tr) ∧
    (s.outstanding = 0 → s.socket.bindQueue = [] ∧ (Closing tr → .close ∈ s.socket.raw)) := by
  have hwell := wellFormed h
  have houtstanding := hwell.outstanding_eq (webSocket_eq h)
  refine ⟨?_, issued_append_bindQueue h, fun l t hs hcloses => ?_, fun hnone => ?_⟩
  · rw [houtstanding]
    split <;> simp
  · have hrun := h.step hs
    obtain ⟨hfinished, hnone⟩ := hs.of_close hwell (hs.raw_of_count_lt hwell hcloses)
    have hqueue := ((wellFormed hrun).idle hfinished).1
    refine ⟨?_, hqueue, ?_⟩
    · rw [(wellFormed hrun).outstanding_eq (webSocket_eq hrun), if_pos hfinished]
    · have hrequested := issued_append_bindQueue hrun
      rwa [hqueue, List.append_nil, requested_append, hnone, Option.toList_none,
        List.append_nil] at hrequested
  · have hfinished : s.socket.bindFinished = true := by
      by_contra hbusy
      rw [houtstanding, if_neg hbusy] at hnone
      exact absurd hnone Nat.one_ne_zero
    obtain ⟨hqueue, hshould⟩ := hwell.idle hfinished
    refine ⟨hqueue, fun hclosing => ?_⟩
    exact ((closing_iff h).mp hclosing).resolve_left (by simp [hshould])

end Runs

/-- Two binds and a close that is put off until both have called back, the second with an error. -/
theorem serialises_binds_two : ∃ tr s, (ZmqSocket.system false).Run tr s ∧
    s.socket.raw = [.bind "tcp://*:1", .bind "tcp://*:2", .close] ∧
    s.issued ++ s.socket.bindQueue = requested tr ∧ s.outstanding ≤ 1 := by
  have h₁ := (System.Run.init (S := ZmqSocket.system false)).step (SocketStep.bind "tcp://*:1")
  have h₂ := h₁.step (SocketStep.bind "tcp://*:2")
  have h₃ := h₂.step SocketStep.close
  have h₄ := h₃.step (SocketStep.called none rfl (by decide))
  have h₅ := h₄.step (SocketStep.called (some "EADDRINUSE") rfl (by decide))
  obtain ⟨hone, hrequested, -⟩ := serialises_binds h₅
  exact ⟨_, _, h₅, rfl, hrequested, hone⟩

/-! ## The last call -/

section Closing

variable {webSocket : Bool} {tr : List (SocketUse × SocketEvent)} {s t : SocketUse}
  {l : SocketEvent}

/-- When `close` was called and all binds have finished, it has reached the wrapped socket. -/
theorem close_mem_raw (h : (ZmqSocket.system webSocket).Run tr s)
    (hclosing : Closing tr) (hfinished : BindsFinished webSocket tr) :
    .close ∈ s.socket.raw := by
  have hshould := ((wellFormed h).idle ((bindFinished_iff h).mpr hfinished)).2
  exact ((closing_iff h).mp hclosing).resolve_left (by simp [hshould])

/-- As long as the close is the last call, no bind occupies a socket that is closed. -/
theorem bindFinished_of_closedForGood (h : (ZmqSocket.system webSocket).Run tr s)
    (hgood : s.socket.ClosedForGood) (hclose : .close ∈ s.socket.raw) :
    s.socket.bindFinished = true := by
  induction h with
  | init => cases hclose
  | @step tr s t l hr hs ih =>
    obtain hraw | ⟨c, hraw⟩ := SocketStep.raw hs (wellFormed hr)
    · -- Of a closed socket each step calls the wrapped socket.
      unfold ZmqSocket.ClosedForGood at hgood
      rw [hraw] at hgood hclose
      obtain ⟨-, c, hreach⟩ := SocketStep.reaches hs (wellFormed hr) (ih hgood hclose)
      rw [hraw] at hreach
      exact absurd hreach (by simp)
    · -- The step is the one that closes it.
      have hopen := (ZmqSocket.closedForGood_append_iff hraw).mp hgood
      rw [hraw, List.mem_append] at hclose
      obtain rfl := List.mem_singleton.mp (hclose.resolve_left hopen)
      exact (SocketStep.of_close hs (wellFormed hr) hraw).1

/-- In a run of a socket on node or in a browser, its close is the last call of the wrapped socket
exactly when no call of `connect`, `bind` or `close` comes after a `close` at a time when all binds
have finished. -/
theorem closedForGood_iff (h : (ZmqSocket.system webSocket).Run tr s) :
    s.socket.ClosedForGood ↔ CallsInTime webSocket tr := by
  induction h with
  | init =>
    refine iff_of_true (fun before after heq => ?_) fun before a after heq => ?_
    · simp [ZmqSocket.system, ZmqSocket.new] at heq
    · simp at heq
  | @step tr s t l hr hs ih =>
    have hwell := wellFormed hr
    -- A call that comes when the socket is closed reaches the wrapped socket.
    have hdue : Closing tr ∧ BindsFinished webSocket tr →
        .close ∈ s.socket.raw ∧ ∃ c, t.socket.raw = s.socket.raw ++ [c] := fun hdue =>
      ⟨close_mem_raw hr hdue.1 hdue.2,
        (SocketStep.reaches hs hwell ((bindFinished_iff hr).mpr hdue.2)).2⟩
    rw [callsInTime_append_iff, ← ih]
    obtain hraw | ⟨c, hraw⟩ := SocketStep.raw hs hwell
    · have hsame : t.socket.ClosedForGood ↔ s.socket.ClosedForGood := by
        unfold ZmqSocket.ClosedForGood
        rw [hraw]
      refine hsame.trans ⟨fun hgood => ⟨hgood, fun _ hnow => ?_⟩, And.left⟩
      obtain ⟨-, c, hreach⟩ := hdue hnow
      rw [hraw] at hreach
      exact absurd hreach (by simp)
    · constructor
      · intro hgood
        refine ⟨hgood.of_append hraw, fun _ hnow => ?_⟩
        exact (ZmqSocket.closedForGood_append_iff hraw).mp hgood (hdue hnow).1
      · rintro ⟨hgood, hcall⟩
        rw [ZmqSocket.closedForGood_append_iff hraw]
        intro hclose
        have hfinished := bindFinished_of_closedForGood hr hgood hclose
        refine hcall (SocketStep.reaches hs hwell hfinished).1 ⟨?_, ?_⟩
        · exact (closing_iff hr).mpr (.inr hclose)
        · exact (bindFinished_iff hr).mp hfinished

end Closing

/-- A close between a bind and its callback, and none later. -/
theorem closedForGood_bind : ∃ tr s, (ZmqSocket.system false).Run tr s ∧
    s.socket.raw = [.bind "tcp://*:1", .close] ∧ s.socket.ClosedForGood := by
  have h₁ := (System.Run.init (S := ZmqSocket.system false)).step (SocketStep.bind "tcp://*:1")
  have h₂ := h₁.step SocketStep.close
  have h₃ := h₂.step SocketStep.close
  have h₄ := h₃.step (SocketStep.called none rfl (by decide))
  refine ⟨_, _, h₄, rfl, (closedForGood_iff h₄).mpr ?_⟩
  simp only [callsInTime_append_iff]
  refine ⟨⟨⟨⟨?_, ?_⟩, ?_⟩, ?_⟩, False.elim⟩
  · simp [CallsInTime]
  · simp [Closing]
  · simp [Closing]
  -- The second `close` comes while the bind has not called back.
  · simp [BindsFinished, requested, SocketEvent.requested?, SocketEvent.isCalled]

/-- A client's socket that is closed and then used once more. -/
theorem not_closedForGood : ¬ ∀ webSocket tr s, (ZmqSocket.system webSocket).Run tr s →
    s.socket.ClosedForGood := by
  intro h
  have h₁ := (System.Run.init (S := ZmqSocket.system false)).step
    (SocketStep.connect "tcp://localhost:1")
  have h₂ := h₁.step SocketStep.close
  have h₃ := h₂.step SocketStep.close
  have hgood := h false _ _ h₃ [.connect "tcp://localhost:1"] [.close] rfl
  cases hgood

end Khala.Js
