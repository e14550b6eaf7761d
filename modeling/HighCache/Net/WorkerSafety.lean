import HighCache.Net.Handoff
import Mathlib.Data.List.Perm.Basic

/-!
# One worker of the handoff

What a step of a worker does, whatever the other threads do. It moves sockets from one of its places
to another, or closes them (`Worker.Takes.transfer`), and it keeps `Worker.Sound`:

* No wake-up is lost. What is in `pending_` is announced by the eventfd, or is about to be, or is
  about to be taken. The order of the two halves of `enqueue` is what makes it so: the worker may
  drain the eventfd between them, and then takes the socket or finds the eventfd positive when it
  waits again.
* An event reaches the connection it was reported for, although its descriptor may have been closed
  and handed out again meanwhile, since nothing is installed before the batch is over.
-/

namespace HighCache

open KeyedList

/-! ## What a step can do

A case for each point of the loop and for each thing that can be found there. The label of the step
is part of the case, since the acceptor and the other threads wait for some of them. -/

namespace Worker

/-- What a step of a worker can do: from a phase, with the sockets it closes, to a worker. -/
inductive Takes (x : Worker) : WorkerStep → List AcceptedSocket → Worker → Prop where
  | requestStop : x.Takes .requestStop []
      { x with stopRequested := true, stopWakes := x.stopWakes + 1 }
  | stopWake : x.Takes .stopWake []
      { x with stopWakes := x.stopWakes - 1, counter := wakeEvent x.counter }
  | wait (hphase : x.phase = .checking) (hstop : x.stopRequested = false) :
      x.Takes .check [] { x with phase := .waiting }
  | leave (hphase : x.phase = .checking) (hstop : x.stopRequested = true) :
      x.Takes .check [] { x with phase := .clearing }
  | interrupt (hphase : x.phase = .waiting) : x.Takes .interrupt [] { x with phase := .checking }
  | fail (hphase : x.phase = .waiting) :
      x.Takes .fail [] { x with phase := .clearing, failed := true }
  | epollWait {events : List EpollEvent} (hphase : x.phase = .waiting)
      (hlength : events.length ≤ maxEvents)
      (hevents : ∀ source, .connection source ∈ events → source ∈ x.connections) :
      x.Takes (.epollWait events) [] { x with phase := .batch events false x.connections }
  | drain {keep : Bool} {events : List EpollEvent} {seen : Bool} {present : List AcceptedSocket}
      (hphase : x.phase = .batch (.wakeup :: events) seen present) :
      x.Takes (.handleEvent keep) [] { x with counter := 0, phase := .batch events true present }
  | keep {keep : Bool} {source : AcceptedSocket} {events : List EpollEvent} {seen : Bool}
      {present : List AcceptedSocket}
      (hphase : x.phase = .batch (.connection source :: events) seen present) :
      x.Takes (.handleEvent keep) [] { x with phase := .batch events seen present }
  | close {source socket : AcceptedSocket} {events : List EpollEvent} {seen : Bool}
      {present : List AcceptedSocket}
      (hphase : x.phase = .batch (.connection source :: events) seen present)
      (hsocket : socket ∈ x.connections) :
      x.Takes (.handleEvent false) [socket] { x with
        connections := x.connections.erase socket
        phase := .batch events seen present }
  | toSwap {seen : Bool} {present : List AcceptedSocket} (hphase : x.phase = .batch [] seen present)
      (hstop : x.stopRequested = false) : x.Takes .endBatch [] { x with phase := .swapping }
  | endBatch {seen : Bool} {present : List AcceptedSocket}
      (hphase : x.phase = .batch [] seen present)
      (hseen : seen = true → x.stopRequested = true) :
      x.Takes .endBatch [] { x with phase := .checking }
  | swapPending (hphase : x.phase = .swapping) :
      x.Takes .swapPending [] { x with pending := [], phase := .installing [] x.pending }
  | install {socket : AcceptedSocket} {kept rest : List AcceptedSocket}
      (hphase : x.phase = .installing kept (socket :: rest)) :
      x.Takes (.install .done) [] { x with
        connections := socket :: x.connections
        phase := .installing kept rest }
  | installCloses {installation : Installation} {socket : AcceptedSocket}
      {kept rest : List AcceptedSocket} (hphase : x.phase = .installing kept (socket :: rest)) :
      x.Takes (.install installation) [socket] { x with phase := .installing kept rest }
  | installKeeps {socket : AcceptedSocket} {kept rest : List AcceptedSocket}
      (hphase : x.phase = .installing kept (socket :: rest)) :
      x.Takes (.install .kept) [] { x with phase := .installing (kept ++ [socket]) rest }
  | endInstall {kept : List AcceptedSocket} (hphase : x.phase = .installing kept []) :
      x.Takes .endInstall kept { x with phase := .checking }
  | clearConnections (hphase : x.phase = .clearing) :
      x.Takes .clearConnections x.connections
        { x with connections := [], phase := .clearingPending }
  | clearPending (hphase : x.phase = .clearingPending) :
      x.Takes .clearPending x.pending { x with pending := [], phase := .finished }

section Takes

variable {x x' : Worker} {closed : List AcceptedSocket}

private theorem takes_check (h : x.step .check = some (closed, x')) :
    x.Takes .check closed x' := by
  dsimp only [Worker.step] at h
  split at h
  · rename_i hphase
    cases h
    by_cases hstop : x.stopRequested = true
    · rw [if_pos hstop]
      exact .leave hphase hstop
    · rw [if_neg hstop]
      exact .wait hphase (Bool.not_eq_true _ ▸ hstop)
  · cases h

private theorem takes_epollWait {events : List EpollEvent}
    (h : x.step (.epollWait events) = some (closed, x')) :
    x.Takes (.epollWait events) closed x' := by
  dsimp only [Worker.step] at h
  split at h
  · rename_i hphase
    split at h
    · rename_i hguard
      cases h
      refine .epollWait hphase hguard.2.1 fun source hsource ↦ ?_
      simpa [mayReport] using List.all_eq_true.mp hguard.2.2 _ hsource
    · cases h
  · cases h

private theorem takes_handleEvent {keep : Bool}
    (h : x.step (.handleEvent keep) = some (closed, x')) :
    x.Takes (.handleEvent keep) closed x' := by
  dsimp only [Worker.step] at h
  split at h
  · rename_i event events seen present hphase
    cases event with
    | wakeup =>
      cases h
      exact .drain hphase
    | connection source =>
      dsimp only [handleEvent, handleConnectionEvent] at h
      cases hfind : find AcceptedSocket.fd source.fd x.connections with
      | none =>
        rw [hfind] at h
        cases h
        exact .keep hphase
      | some socket =>
        rw [hfind] at h
        cases keep <;> cases h
        · exact .close hphase (mem_of_find hfind)
        · exact .keep hphase
  · cases h

/-- A batch with the eventfd in it is followed by the swap, unless the worker is to stop. -/
private theorem takes_endBatch (h : x.step .endBatch = some (closed, x')) :
    x.Takes .endBatch closed x' := by
  dsimp only [Worker.step] at h
  split at h
  · rename_i seen present hphase
    cases h
    by_cases hswap : (seen && !x.stopRequested) = true
    · rw [if_pos hswap]
      simp only [Bool.and_eq_true, Bool.not_eq_true'] at hswap
      exact .toSwap hphase hswap.2
    · rw [if_neg hswap]
      simp only [Bool.and_eq_true, Bool.not_eq_true', not_and, Bool.not_eq_false] at hswap
      exact .endBatch hphase hswap
  · cases h

private theorem takes_install {installation : Installation}
    (h : x.step (.install installation) = some (closed, x')) :
    x.Takes (.install installation) closed x' := by
  dsimp only [Worker.step] at h
  split at h
  · rename_i kept socket rest hphase
    cases installation with
    | done =>
      dsimp only [Worker.install] at h
      split at h
      · cases h
        exact .install hphase
      · cases h
        exact .installCloses hphase
    | closed =>
      cases h
      exact .installCloses hphase
    | kept =>
      cases h
      exact .installKeeps hphase
  · cases h

/-- **The steps of a worker are those above.** -/
theorem takes_step {step : WorkerStep} (h : x.step step = some (closed, x')) :
    x.Takes step closed x' := by
  cases step with
  | requestStop =>
    cases h
    exact .requestStop
  | stopWake =>
    dsimp only [Worker.step] at h
    split at h
    · cases h
      exact .stopWake
    · cases h
  | check => exact takes_check h
  | interrupt =>
    dsimp only [Worker.step] at h
    split at h <;> cases h
    exact .interrupt ‹_›
  | fail =>
    dsimp only [Worker.step] at h
    split at h <;> cases h
    exact .fail ‹_›
  | epollWait events => exact takes_epollWait h
  | handleEvent keep => exact takes_handleEvent h
  | endBatch => exact takes_endBatch h
  | swapPending =>
    dsimp only [Worker.step] at h
    split at h <;> cases h
    exact .swapPending ‹_›
  | install installation => exact takes_install h
  | endInstall =>
    dsimp only [Worker.step] at h
    split at h <;> cases h
    exact .endInstall ‹_›
  | clearConnections =>
    dsimp only [Worker.step] at h
    split at h <;> cases h
    exact .clearConnections ‹_›
  | clearPending =>
    dsimp only [Worker.step] at h
    split at h <;> cases h
    exact .clearPending ‹_›

end Takes

/-! ## Where the sockets go

A step moves sockets from one place to one other, or moves none. The place may also be nowhere, for
sockets that are closed. -/

/-- The sockets of a worker, and those it has closed. -/
def spots (x : Worker) (closed : List AcceptedSocket) : Option Spot → List AcceptedSocket
  | some spot => x.sockets spot
  | none => closed

/-- From `x` to `x'`, with `closed` closed, some sockets were moved and the others were left. -/
structure Transfer (x x' : Worker) (closed : List AcceptedSocket) (p q : Option Spot)
    (moved : List AcceptedSocket) : Prop where
  ne : p ≠ q
  source : (x.spots [] p).Perm (moved ++ x'.spots closed p)
  target : (x'.spots closed q).Perm (moved ++ x.spots [] q)
  rest : ∀ r, r ≠ p → r ≠ q → x'.spots closed r = x.spots [] r

theorem transfer_nothing {x x' : Worker} (h : ∀ spot, x'.sockets spot = x.sockets spot) :
    Transfer x x' [] none (some .pending) [] where
  ne := by rintro ⟨⟩
  source := List.Perm.refl _
  target := List.Perm.of_eq (h .pending)
  rest := by
    intro r hr _
    cases r with
    | none => exact absurd rfl hr
    | some spot => exact h spot

/-- Between two phases without a local vector. -/
theorem transfer_phase {x x' : Worker} (hvector : x.phase.localVector = [])
    (hvector' : x'.phase.localVector = []) (hpending : x'.pending = x.pending)
    (hconnections : x'.connections = x.connections) : ∃ p q moved, Transfer x x' [] p q moved := by
  refine ⟨_, _, _, transfer_nothing fun spot ↦ ?_⟩
  cases spot with
  | pending => exact hpending
  | installing => exact hvector'.trans hvector.symm
  | connections => exact hconnections

theorem transfer_closed {x x' : Worker} (spot : Spot) (hspot : x'.sockets spot = [])
    (hrest : ∀ other, other ≠ spot → x'.sockets other = x.sockets other) :
    ∃ p q moved, Transfer x x' (x.sockets spot) p q moved := by
  refine ⟨some spot, none, x.sockets spot, by rintro ⟨⟩, ?_, ?_, fun r hp hq ↦ ?_⟩
  · show (x.sockets spot).Perm (x.sockets spot ++ x'.sockets spot)
    rw [hspot, List.append_nil]
  · exact List.Perm.of_eq (List.append_nil _).symm
  · cases r with
    | none => exact absurd rfl hq
    | some other => exact hrest other fun heq ↦ hp (heq ▸ rfl)

private theorem transfer_close {x x' : Worker} (spot : Spot) {socket : AcceptedSocket}
    (hspot : (x.sockets spot).Perm (socket :: x'.sockets spot))
    (hrest : ∀ other, other ≠ spot → x'.sockets other = x.sockets other) :
    ∃ p q moved, Transfer x x' [socket] p q moved := by
  refine ⟨some spot, none, [socket], by rintro ⟨⟩, hspot, List.Perm.refl _, fun r hp hq ↦ ?_⟩
  cases r with
  | none => exact absurd rfl hq
  | some other => exact hrest other fun heq ↦ hp (heq ▸ rfl)

section Transfer

variable {x : Worker} {socket : AcceptedSocket} {kept rest : List AcceptedSocket}

private theorem transfer_swap (hphase : x.phase = .swapping) :
    Transfer x { x with pending := [], phase := .installing [] x.pending } [] (some .pending)
      (some .installing) x.pending := by
  refine ⟨by rintro ⟨⟩, ?_, ?_, fun r hp hq ↦ ?_⟩
  · exact List.Perm.of_eq (List.append_nil _).symm
  · show x.pending.Perm (x.pending ++ x.phase.localVector)
    rw [hphase]
    exact List.Perm.of_eq (List.append_nil _).symm
  · rcases r with _ | _ | _ | _
    · rfl
    · exact absurd rfl hp
    · exact absurd rfl hq
    · rfl

private theorem localVector_perm (hphase : x.phase = .installing kept (socket :: rest)) :
    x.phase.localVector.Perm (socket :: (kept ++ rest)) := by
  rw [hphase]
  exact List.perm_middle

private theorem transfer_install (hphase : x.phase = .installing kept (socket :: rest)) :
    Transfer x { x with connections := socket :: x.connections, phase := .installing kept rest } []
      (some .installing) (some .connections) [socket] := by
  refine ⟨by rintro ⟨⟩, ?_, List.Perm.refl _, fun r hp hq ↦ ?_⟩
  · show x.phase.localVector.Perm (socket :: (kept ++ rest))
    exact localVector_perm hphase
  · rcases r with _ | _ | _ | _
    · rfl
    · rfl
    · exact absurd rfl hp
    · exact absurd rfl hq

private theorem transfer_installCloses (hphase : x.phase = .installing kept (socket :: rest)) :
    ∃ p q moved, Transfer x { x with phase := .installing kept rest } [socket] p q moved := by
  refine transfer_close .installing (localVector_perm hphase) fun other hother ↦ ?_
  cases other with
  | pending => rfl
  | installing => exact absurd rfl hother
  | connections => rfl

private theorem transfer_installKeeps (hphase : x.phase = .installing kept (socket :: rest)) :
    ∃ p q moved,
      Transfer x { x with phase := .installing (kept ++ [socket]) rest } [] p q moved := by
  refine ⟨_, _, _, transfer_nothing fun spot ↦ ?_⟩
  cases spot with
  | pending => rfl
  | installing =>
    show kept ++ [socket] ++ rest = x.phase.localVector
    rw [hphase, List.append_assoc]
    rfl
  | connections => rfl

private theorem transfer_endInstall (hphase : x.phase = .installing kept []) :
    ∃ p q moved, Transfer x { x with phase := .checking } kept p q moved := by
  have hvector : x.sockets .installing = kept := by
    show x.phase.localVector = kept
    rw [hphase]
    exact List.append_nil kept
  rw [← hvector]
  refine transfer_closed .installing rfl fun other hother ↦ ?_
  cases other with
  | pending => rfl
  | installing => exact absurd rfl hother
  | connections => rfl

private theorem sockets_of_connections {x' : Worker} (hvector : x.phase.localVector = [])
    (hvector' : x'.phase.localVector = []) (hpending : x'.pending = x.pending) (other : Spot)
    (hother : other ≠ .connections) : x'.sockets other = x.sockets other := by
  cases other with
  | pending => exact hpending
  | installing => exact hvector'.trans hvector.symm
  | connections => exact absurd rfl hother

private theorem transfer_clearPending (hphase : x.phase = .clearingPending) :
    ∃ p q moved, Transfer x { x with pending := [], phase := .finished } x.pending p q moved := by
  refine transfer_closed .pending rfl fun other hother ↦ ?_
  cases other with
  | pending => exact absurd rfl hother
  | installing =>
    show [] = x.phase.localVector
    rw [hphase]
    rfl
  | connections => rfl

/-- **A step of a worker moves sockets from one place to another.** -/
theorem Takes.transfer {x' : Worker} {step : WorkerStep} {closed : List AcceptedSocket}
    (h : x.Takes step closed x') : ∃ p q moved, Transfer x x' closed p q moved := by
  cases h with
  | requestStop =>
    refine ⟨_, _, _, transfer_nothing fun spot ↦ ?_⟩
    cases spot <;> rfl
  | stopWake =>
    refine ⟨_, _, _, transfer_nothing fun spot ↦ ?_⟩
    cases spot <;> rfl
  | wait hphase _ => exact transfer_phase (by rw [hphase]; rfl) rfl rfl rfl
  | leave hphase _ => exact transfer_phase (by rw [hphase]; rfl) rfl rfl rfl
  | interrupt hphase => exact transfer_phase (by rw [hphase]; rfl) rfl rfl rfl
  | fail hphase => exact transfer_phase (by rw [hphase]; rfl) rfl rfl rfl
  | epollWait hphase _ _ => exact transfer_phase (by rw [hphase]; rfl) rfl rfl rfl
  | drain hphase => exact transfer_phase (by rw [hphase]; rfl) rfl rfl rfl
  | keep hphase => exact transfer_phase (by rw [hphase]; rfl) rfl rfl rfl
  | close hphase hsocket =>
    exact transfer_close .connections (List.perm_cons_erase hsocket)
      (sockets_of_connections (by rw [hphase]; rfl) rfl rfl)
  | toSwap hphase _ => exact transfer_phase (by rw [hphase]; rfl) rfl rfl rfl
  | endBatch hphase _ => exact transfer_phase (by rw [hphase]; rfl) rfl rfl rfl
  | swapPending hphase => exact ⟨_, _, _, transfer_swap hphase⟩
  | install hphase => exact ⟨_, _, _, transfer_install hphase⟩
  | installCloses hphase => exact transfer_installCloses hphase
  | installKeeps hphase => exact transfer_installKeeps hphase
  | endInstall hphase => exact transfer_endInstall hphase
  | clearConnections hphase =>
    exact transfer_closed .connections rfl
      (sockets_of_connections (by rw [hphase]; rfl) rfl rfl)
  | clearPending hphase => exact transfer_clearPending hphase

end Transfer

end Worker

/-! ## What a worker keeps

What is known depends on the phase: in the loop that no wake-up is lost, during a batch that the
events are those of connections that are there, and on the way out that nothing is left. -/

namespace WorkerPhase

/-- The eventfd was drained in this turn of the loop, and `pending_` is still to be taken. -/
def Drained : WorkerPhase → Prop
  | .batch _ seen _ => seen = true
  | .swapping => True
  | _ => False

/-- The thread is in the loop of `Worker::run`, and not in `epoll_wait`. -/
def Busy : WorkerPhase → Prop
  | .checking => True
  | .batch _ _ _ => True
  | .swapping => True
  | .installing _ _ => True
  | _ => False

/-- The loop of `Worker::run` is over. -/
def Left : WorkerPhase → Prop
  | .clearing => True
  | .clearingPending => True
  | .finished => True
  | _ => False

/-- `connections_` has been cleared. -/
def Disconnected : WorkerPhase → Prop
  | .clearingPending => True
  | .finished => True
  | _ => False

/-- During a batch every connection is one there was when the batch came, and so is the source of
every event; and no two of these have one descriptor. -/
def Current (connections : List AcceptedSocket) : WorkerPhase → Prop
  | .batch events _ present =>
    connections ⊆ present ∧ (∀ source, .connection source ∈ events → source ∈ present)
      ∧ ∀ a ∈ present, ∀ b ∈ present, a.fd = b.fd → a = b
  | _ => True

theorem Current.next {connections present : List AcceptedSocket} {event : EpollEvent}
    {events : List EpollEvent} {seen : Bool}
    (h : (batch (event :: events) seen present).Current connections) :
    (batch events seen present).Current connections :=
  ⟨h.1, fun source hsource ↦ h.2.1 source (List.mem_cons_of_mem _ hsource), h.2.2⟩

end WorkerPhase

theorem wakeEvent_pos (counter : ℕ) : 0 < wakeEvent counter := by
  have hmax : 0 < maxCounter := by decide
  unfold wakeEvent
  split
  · exact Nat.succ_pos _
  · omega

namespace Worker

/-- What holds of a worker at all times. `due` says that the acceptor has pushed a socket for it and
not yet woken it. -/
structure Sound (x : Worker) (due : Prop) : Prop where
  /-- **No wake-up is lost.** -/
  woken : x.failed = false → x.stopRequested = false → x.pending ≠ [] →
    0 < x.counter ∨ due ∨ x.phase.Drained
  stopped : x.stopRequested = true → x.phase = .waiting → 0 < x.counter ∨ 0 < x.stopWakes
  left : x.failed = false → x.phase.Left → x.stopRequested = true
  disconnected : x.phase.Disconnected → x.connections = []
  cleared : x.failed = false → x.phase = .finished → x.pending = []
  /-- **Nothing is installed during a batch.** -/
  current : x.phase.Current x.connections

theorem sound_new (due : Prop) : new.Sound due where
  woken := fun _ _ hpending ↦ absurd rfl hpending
  stopped := by rintro ⟨⟩
  left := fun _ hleft ↦ hleft.elim
  disconnected := fun _ ↦ rfl
  cleared := fun _ _ ↦ rfl
  current := trivial

namespace Sound

variable {x : Worker} {due : Prop} (h : x.Sound due)
include h

theorem mono {due' : Prop} (hdue : due → due') : x.Sound due' :=
  { h with woken := fun hf hs hp ↦ (h.woken hf hs hp).imp id (Or.imp_left hdue) }

theorem toPhase {old phase : WorkerPhase} (hphase : x.phase = old)
    (hdrained : x.stopRequested = false → old.Drained → phase.Drained)
    (hstopped : phase = .waiting → x.stopRequested = false)
    (hleft : phase.Left → x.stopRequested = true) (hdisconnected : ¬phase.Disconnected)
    (hcurrent : phase.Current x.connections) : { x with phase := phase }.Sound due where
  woken := fun hf hs hp ↦ by
    subst hphase
    exact (h.woken hf hs hp).imp id (Or.imp_right (hdrained hs))
  stopped := fun hs hphase ↦ by
    rw [hstopped hphase] at hs
    cases hs
  left := fun _ ↦ hleft
  disconnected := fun hphase ↦ absurd hphase hdisconnected
  cleared := fun _ (hphase : phase = .finished) ↦ by
    subst hphase
    exact absurd trivial hdisconnected
  current := hcurrent

theorem toBusy {old phase : WorkerPhase} (hphase : x.phase = old) (hbusy : phase.Busy)
    (hdrained : x.stopRequested = false → old.Drained → phase.Drained)
    (hcurrent : phase.Current x.connections) : { x with phase := phase }.Sound due :=
  h.toPhase hphase hdrained (by rintro rfl; exact hbusy.elim)
    (by cases phase <;> first | exact hbusy.elim | exact False.elim)
    (by cases phase <;> first | exact hbusy.elim | exact id) hcurrent

omit h in
/-- In the loop there is less to keep. -/
theorem of_busy (hbusy : x.phase.Busy)
    (hwoken : x.failed = false → x.stopRequested = false → x.pending ≠ [] →
      0 < x.counter ∨ due ∨ x.phase.Drained) (hcurrent : x.phase.Current x.connections) :
    x.Sound due where
  woken := hwoken
  stopped := fun _ hphase ↦ by
    rw [hphase] at hbusy
    exact hbusy.elim
  left := fun _ hleft ↦ by
    cases hphase : x.phase <;> rw [hphase] at hbusy hleft <;>
      first | exact hbusy.elim | exact hleft.elim
  disconnected := fun hleft ↦ by
    cases hphase : x.phase <;> rw [hphase] at hbusy hleft <;>
      first | exact hbusy.elim | exact hleft.elim
  cleared := fun _ hphase ↦ by
    rw [hphase] at hbusy
    exact hbusy.elim
  current := hcurrent

private theorem toLeft {x' : Worker} (hleft : x.phase.Left) (hfailed : x'.failed = x.failed)
    (hstop : x'.stopRequested = x.stopRequested) (hphase : x'.phase.Disconnected)
    (hconnections : x'.connections = [])
    (hcleared : x'.phase = .finished → x'.pending = []) : x'.Sound due where
  woken := fun hf hs ↦ by
    rw [hfailed] at hf
    rw [hstop, h.left hf hleft] at hs
    cases hs
  stopped := fun _ heq ↦ by
    rw [heq] at hphase
    exact hphase.elim
  left := fun hf _ ↦ hstop.trans (h.left (hfailed ▸ hf) hleft)
  disconnected := fun _ ↦ hconnections
  cleared := fun _ ↦ hcleared
  current := by
    cases heq : x'.phase <;> rw [heq] at hphase <;> first | exact hphase.elim | exact trivial

/-- **One step of a worker.** -/
theorem takes (hfds : ∀ a ∈ x.connections, ∀ b ∈ x.connections, a.fd = b.fd → a = b)
    {step : WorkerStep} {closed : List AcceptedSocket} {x' : Worker}
    (htakes : x.Takes step closed x') : x'.Sound due := by
  have hwoken := h.woken
  have hcurrent := h.current
  cases htakes with
  | requestStop =>
    exact { h with
      woken := by rintro - ⟨⟩
      stopped := fun _ _ ↦ Or.inr (Nat.succ_pos _)
      left := fun _ _ ↦ rfl }
  | stopWake =>
    exact { h with
      woken := fun _ _ _ ↦ Or.inl (wakeEvent_pos _)
      stopped := fun _ _ ↦ Or.inl (wakeEvent_pos _) }
  | wait hphase hstop =>
    exact h.toPhase hphase (fun _ ↦ id) (fun _ ↦ hstop) False.elim id trivial
  | leave hphase hstop =>
    exact h.toPhase hphase (fun _ ↦ id) (by rintro ⟨⟩) (fun _ ↦ hstop) id trivial
  | interrupt hphase => exact h.toBusy hphase trivial (fun _ ↦ id) trivial
  | fail hphase =>
    exact {
      woken := by rintro ⟨⟩
      stopped := by rintro - ⟨⟩
      left := by rintro ⟨⟩
      disconnected := fun hphase ↦ hphase.elim
      cleared := by rintro ⟨⟩
      current := trivial }
  | epollWait hphase _ hevents =>
    exact h.toBusy hphase trivial (fun _ ↦ False.elim) ⟨List.Subset.refl _, hevents, hfds⟩
  | drain hphase =>
    rw [hphase] at hcurrent
    exact of_busy trivial (fun _ _ _ ↦ Or.inr (Or.inr rfl)) hcurrent.next
  | keep hphase =>
    rw [hphase] at hcurrent
    exact h.toBusy hphase trivial (fun _ ↦ id) hcurrent.next
  | close hphase hsocket =>
    rw [hphase] at hcurrent hwoken
    obtain ⟨hconnections, hevents, hfds⟩ := hcurrent.next
    exact of_busy trivial hwoken
      ⟨fun a ha ↦ hconnections (List.mem_of_mem_erase ha), hevents, hfds⟩
  | toSwap hphase hstop => exact h.toBusy hphase trivial (fun _ _ ↦ trivial) trivial
  | endBatch hphase hseen =>
    refine h.toBusy hphase trivial (fun hstop hdrained ↦ ?_) trivial
    rw [hseen hdrained] at hstop
    cases hstop
  | swapPending hphase => exact of_busy trivial (fun _ _ hpending ↦ absurd rfl hpending) trivial
  | install hphase =>
    rw [hphase] at hwoken
    exact of_busy trivial hwoken trivial
  | installCloses hphase => exact h.toBusy hphase trivial (fun _ ↦ id) trivial
  | installKeeps hphase => exact h.toBusy hphase trivial (fun _ ↦ id) trivial
  | endInstall hphase => exact h.toBusy hphase trivial (fun _ ↦ id) trivial
  | clearConnections hphase =>
    exact h.toLeft (by rw [hphase]; exact trivial) rfl rfl trivial rfl (by rintro ⟨⟩)
  | clearPending hphase =>
    exact h.toLeft (by rw [hphase]; exact trivial) rfl rfl trivial
      (h.disconnected (by rw [hphase]; exact trivial)) fun _ ↦ rfl

end Sound

end Worker

end HighCache
